/-
The startup of a reactor group comes to its end.

Every step lowers a measure, but for the calls that wake for no reason; and until
`spawn` has returned and every worker has passed the gate some step can be taken.

* `Step.measured`, `Inv.progress` — these two;
* `Run.joined`, `Run.runs` — what a run has done by then;
* `GroupStartup.startup` — what is returned at the end of it.
-/
import Calandria.StartupOwnership

namespace Calandria

namespace GroupStartup

variable {R S E X P : Type}

/-! ### A measure -/

/-- How many steps the spawner still takes. -/
def SpawnerPc.rank {n : ℕ} : SpawnerPc n R S E → ℕ
  | .validating => 4 * n + 9
  | .cloning index => 2 * (n - index) + (2 * n + 8)
  | .creating index _ => 2 * (n - index.val) + (2 * n + 7)
  | .supervising _ => 2 * n + 7
  | .offering => 2 * n + 6
  | .recovering _ => 2 * n + 5
  | .opening => 2
  | .opened => 1
  | .aborting _ => 2 * n + 4
  | .aborted _ => 2 * n + 3
  | .joining _ workers => workers.length + (n + 2)
  | .taking _ reactors => n - reactors.length + 1
  | .returned _ | .panicked _ => 0

def workerRank : Option (WorkerPc R X P) → ℕ
  | none => 6
  | some .starting => 5
  | some .waiting => 4
  | some .taking => 3
  | some (.running _) => 2
  | some (.dropping _) => 1
  | some (.finished _) => 0

def supervisorRank {n : ℕ} : Option (SupervisorPc n) → ℕ
  | none => 2
  | some .starting => 1
  | some (.supervising _) | some .panicked => 0

/-- How many steps startup still takes. -/
def measure {n : ℕ} (s : State n R S E X P) : ℕ :=
  StartGate.measure s.gate + s.spawner.rank + ∑ k, workerRank (s.workers k) +
    supervisorRank s.supervisor

namespace Label

variable {n : ℕ}

def cost : Label n E X P → ℕ
  | .gate _ event => event.cost
  | _ => 1

/-- What a call gains that wakes for no reason. -/
def gain : Label n E X P → ℕ
  | .gate _ event => event.gain
  | _ => 0

/-- A step of startup: no call wakes for no reason, and no reactor comes to its end. -/
def advances : Label n E X P → Bool
  | .gate _ event => !event.spurious
  | .worker _ (.exit _) | .worker _ (.panic _) => false
  | _ => true

end Label

variable {limits : NonZeroUsize} {name : String} {members : List (ReactorGroupMember R S)}
  {s s' : State members.length R S E X P} {l : Label members.length E X P}

theorem sum_setWorker {n : ℕ} {s : State n R S E X P} {k : Fin n} {pc : WorkerPc R X P}
    (h : workerRank (some pc) < workerRank (s.workers k)) :
    ∑ j, workerRank (Function.update s.workers k (some pc) j) < ∑ j, workerRank (s.workers j) := by
  have hsum := sum_update workerRank s.workers k (some pc)
  omega

/-- Every step lowers the measure, but for the calls that wake for no reason. -/
theorem Step.measured (hstep : Step limits name members s l s') (h : Inv limits name members s) :
    l.cost + measure s' ≤ measure s + l.gain := by
  -- a step that leaves the gate alone, and lowers what remains
  have hlower : ∀ {t : State members.length R S E X P}, t.gate = s.gate →
      t.spawner.rank + ∑ k, workerRank (t.workers k) + supervisorRank t.supervisor
        < s.spawner.rank + ∑ k, workerRank (s.workers k) + supervisorRank s.supervisor →
      1 + measure t ≤ measure s := by
    intro t hgate hlt
    rw [measure, measure, hgate]
    omega
  have hset : ∀ {t : State members.length R S E X P} {k pc}, t.gate = s.gate →
      t.spawner = s.spawner → t.supervisor = s.supervisor →
      t.workers = Function.update s.workers k (some pc) →
      workerRank (some pc) < workerRank (s.workers k) → 1 + measure t ≤ measure s := by
    intro t k pc hgate hspawner hsupervisor hworkers hlt
    refine hlower hgate ?_
    have hsum := sum_setWorker hlt
    rw [hspawner, hsupervisor, hworkers]
    omega
  -- a step of the spawner alone
  have hspawner : ∀ {t : State members.length R S E X P} {pc}, t.gate = s.gate →
      t.workers = s.workers → t.supervisor = s.supervisor → s.spawner = pc →
      t.spawner.rank < pc.rank → 1 + measure t ≤ measure s := by
    intro t pc hgate hworkers hsupervisor hpc hlt
    refine hlower hgate ?_
    rw [hworkers, hsupervisor, hpc]
    omega
  cases hstep with
  | validated hpc | becameEmpty hpc | invalid hpc | validatePanics hpc | clone hpc
  | clonePanics hpc | reject hpc | refuse _ hpc | rejectSupervisor hpc | offer hpc
  | refuseSupervisor _ hpc | recover hpc | recoverPanics hpc | opened hpc | join hpc
  | joinPanics hpc | joinFails hpc | drop hpc | takePanics hpc | unwrap hpc | rebuildPanics hpc
  | unwrapPanics hpc | assemble hpc =>
    refine hspawner rfl rfl rfl hpc ?_
    simp only [SpawnerPc.rank, List.length_cons, List.length_nil]
    omega
  | @aborted failure result hpc =>
    obtain ⟨-, -, -, -, i, -, hpending⟩ := h.fits hpc
    have hlength : s.pending.length ≤ members.length := by
      rw [hpending]
      exact (List.length_take_le' _ _).trans (List.length_finRange).le
    refine hspawner rfl rfl rfl hpc ?_
    simp only [SpawnerPc.rank]
    omega
  | @take failure reactors reactor k hpc hk =>
    have hlt := k.isLt
    refine hspawner rfl rfl rfl hpc ?_
    simp only [SpawnerPc.rank, List.length_append, List.length_singleton]
    omega
  | @create k id hpc =>
    obtain ⟨-, -, -, -, hcreated, -⟩ := h.fits hpc
    have hnone : s.workers k = none := by
      by_contra hne
      exact Nat.lt_irrefl _ ((hcreated k).mp hne)
    have hrank : workerRank (some (.starting : WorkerPc R X P)) < workerRank (s.workers k) := by
      rw [hnone]
      exact Nat.lt_succ_self 5
    have hsum := sum_setWorker hrank
    have hlt := k.isLt
    refine hlower rfl ?_
    rw [hpc]
    simp only [SpawnerPc.rank, State.setWorker]
    omega
  | createSupervisor hpc =>
    obtain ⟨-, -, hsupervisor, -⟩ := h.fits hpc
    refine hlower rfl ?_
    rw [hpc, hsupervisor]
    simp only [SpawnerPc.rank, supervisorRank]
    omega
  | @start gate hpc hgate | @abort _ gate hpc hgate =>
    have hcost : 1 + StartGate.measure gate ≤ StartGate.measure s.gate := hgate.measured h.gate
    simp only [Label.cost, Label.gain, measure, hpc, SpawnerPc.rank]
    omega
  | @wait k gate hworker hgate =>
    have hcost : 1 + StartGate.measure gate ≤ StartGate.measure s.gate := hgate.measured h.gate
    have hrank : workerRank (some (.waiting : WorkerPc R X P)) < workerRank (s.workers k) := by
      rw [hworker]
      exact Nat.lt_succ_self 4
    have hsum := sum_setWorker hrank
    simp only [Label.cost, Label.gain, measure, State.setWorker]
    omega
  | @observe k d hworker =>
    refine hset rfl rfl rfl rfl ?_
    rw [hworker]
    cases d <;> exact Nat.le_of_ble_eq_true rfl
  | disappeared hworker | takeReactor hworker | takeReactorPanics hworker | exit _ hworker
  | unwind _ hworker | dropCaptured hworker =>
    refine hset rfl rfl rfl rfl ?_
    rw [hworker]
    exact Nat.le_of_ble_eq_true rfl
  | supervise hsupervisor | supervisePanics hsupervisor =>
    refine hlower rfl ?_
    rw [hsupervisor]
    exact Nat.lt_succ_self _
  | gate hgate =>
    have hcost := hgate.measured h.gate
    simp only [Label.cost, Label.gain, measure]
    omega

/-! ### Progress -/

/-- There is no thread, or it is past the gate and its slot. -/
def Settled : Option (WorkerPc R X P) → Prop
  | none | some (.running _) | some (.finished _) => True
  | _ => False

/-- Startup can go on. -/
def CanStep (limits : NonZeroUsize) (name : String) (s : State members.length R S E X P) : Prop :=
  ∃ l s', Step limits name members s l s' ∧ l.advances = true

theorem Inv.gate_progress (h : Inv limits name members s) {p : Party members.length}
    {pc : StartGate.CallPc} (hpc : s.gate.calls p = some pc)
    (hreturned : ∀ result, pc ≠ .returned result)
    (hdecided : pc = .blocked false → s.gate.decision ≠ none) : CanStep limits name s := by
  obtain ⟨q, e, gate, hgate, hspurious, hcall⟩ := h.gate.progress hpc hreturned hdecided
  refine ⟨_, _, .gate hgate hcall, ?_⟩
  simp only [Label.advances, hspurious, Bool.not_false]

/-- Once there is a decision, no worker is left behind. -/
theorem Inv.worker_progress (h : Inv limits name members s) (hdecided : s.gate.decision ≠ none)
    (k : Fin members.length) (hsettled : ¬ Settled (s.workers k)) : CanStep limits name s := by
  have hfits := h.worker k
  cases hworker : s.workers k with
  | none =>
    rw [hworker] at hsettled
    exact absurd trivial hsettled
  | some pc =>
    rw [hworker] at hfits hsettled
    cases pc with
    | starting => exact ⟨_, _, .wait hworker (.call .wait hfits), rfl⟩
    | waiting =>
      obtain ⟨pc, hpc⟩ := Option.ne_none_iff_exists'.mp hfits
      by_cases hreturned : ∃ result, pc = .returned result
      · obtain ⟨result, rfl⟩ := hreturned
        obtain ⟨d, rfl⟩ := Option.isSome_iff_exists.mp (h.waits hpc)
        exact ⟨_, _, .observe hworker hpc, rfl⟩
      · exact h.gate_progress hpc (fun result heq => hreturned ⟨result, heq⟩) fun _ => hdecided
    | taking => exact ⟨_, _, .takeReactor hworker (h.slot hworker), rfl⟩
    | dropping result => exact ⟨_, _, .dropCaptured hworker, rfl⟩
    | running | finished => exact absurd trivial hsettled

/-- A spawner that waits for its decision gets on. -/
theorem Inv.decision_progress (h : Inv limits name members s) {selected : StartDecision}
    (hdeciding : Deciding s selected)
    (hnext : ∀ result, s.gate.calls .spawner = some (.returned result) → CanStep limits name s) :
    CanStep limits name s := by
  obtain ⟨pc, hpc, hdecides⟩ := hdeciding
  by_cases hreturned : ∃ result, pc = .returned result
  · obtain ⟨result, rfl⟩ := hreturned
    exact hnext result hpc
  · refine h.gate_progress hpc (fun result heq => hreturned ⟨result, heq⟩) ?_
    rintro rfl
    exact absurd hdecides id

/-- **Startup is never stuck** before `spawn` has returned and every worker has
passed the gate. -/
theorem Inv.progress (h : Inv limits name members s) :
    ((∃ result, s.spawner = .returned result) ∧ ∀ k, Settled (s.workers k)) ∨
      CanStep limits name s := by
  have hlimits := limits.get.isLt
  cases hpc : s.spawner with
  | validating =>
    refine .inr ?_
    cases hvalidate : validate (E := E) limits members with
    | error panic => exact ⟨_, _, .validatePanics hpc hvalidate, rfl⟩
    | ok result =>
      cases result with
      | error failure => exact ⟨_, _, .invalid hpc hvalidate, rfl⟩
      | ok =>
        by_cases hempty : members.length = 0
        · exact ⟨_, _, .becameEmpty hpc hvalidate hempty, rfl⟩
        · exact ⟨_, _, .validated hpc hvalidate hempty, rfl⟩
  | cloning index =>
    obtain ⟨hadmitted, -, -, hindex, -⟩ := h.fits hpc
    have hle := hadmitted.length_le
    rcases Nat.lt_or_eq_of_le hindex with hlt | rfl
    · obtain ⟨id, hid⟩ := exists_fromPosition (show index < 2 ^ 64 by omega)
      exact .inr ⟨_, _, .clone (k := ⟨index, hlt⟩) hpc hid, rfl⟩
    · exact .inr ⟨_, _, .assemble hpc, rfl⟩
  | creating k id =>
    cases hname : hasNul (workerName name k.val) with
    | true => exact .inr ⟨_, _, .reject hpc hname, rfl⟩
    | false => exact .inr ⟨_, _, .create hpc hname, rfl⟩
  | supervising workers =>
    cases hname : hasNul (supervisorName name) with
    | true => exact .inr ⟨_, _, .rejectSupervisor hpc hname, rfl⟩
    | false => exact .inr ⟨_, _, .offer hpc hname, rfl⟩
  | offering => exact .inr ⟨_, _, .createSupervisor hpc, rfl⟩
  | recovering source =>
    obtain ⟨-, -, -, -, -, hassets⟩ := h.fits hpc
    exact .inr ⟨_, _, .recover hpc hassets, rfl⟩
  | opening =>
    obtain ⟨hundecided, -⟩ := h.fits hpc
    exact .inr ⟨_, _, .start hpc (.call _ hundecided.2), rfl⟩
  | opened =>
    obtain ⟨hdeciding, -⟩ := h.fits hpc
    exact .inr (h.decision_progress hdeciding fun _ hreturned => ⟨_, _, .opened hpc hreturned, rfl⟩)
  | aborting failure =>
    obtain ⟨-, hundecided, -⟩ := h.fits hpc
    exact .inr ⟨_, _, .abort hpc (.call _ hundecided.2), rfl⟩
  | aborted failure =>
    obtain ⟨-, hdeciding, -⟩ := h.fits hpc
    refine .inr (h.decision_progress hdeciding fun _ hreturned => ?_)
    exact ⟨_, _, .aborted hpc hreturned, rfl⟩
  | joining failure workers =>
    obtain ⟨-, ⟨habort, -⟩, -, -, -, hmem, -⟩ := h.fits hpc
    refine .inr ?_
    cases workers with
    | nil => exact ⟨_, _, .drop hpc, rfl⟩
    | cons k workers =>
      by_cases hsettled : Settled (s.workers k)
      · -- a worker that has settled has finished, as none runs before the gate is open
        have hfits := h.worker k
        cases hworker : s.workers k with
        | none => exact absurd hworker (hmem k List.mem_cons_self)
        | some pc =>
          rw [hworker] at hsettled hfits
          cases pc with
          | running reactor => exact absurd (habort.symm.trans hfits.1) nofun
          | finished result =>
            have haborted := h.finished_aborted habort hworker
            subst haborted
            exact ⟨_, _, .join hpc hworker, rfl⟩
          | _ => exact absurd hsettled id
      · exact h.worker_progress (by rw [habort]; exact nofun) k hsettled
  | taking failure reactors =>
    obtain ⟨-, -, hsupervisor, -, haborted, hlength, -⟩ := h.fits hpc
    refine .inr ?_
    rcases Nat.lt_or_eq_of_le hlength with hlt | heq
    · exact ⟨_, _, .take (k := ⟨_, hlt⟩) hpc rfl (h.retake hpc rfl), rfl⟩
    · have halone := h.strong_alone hsupervisor haborted
      rw [hpc] at halone
      cases hrebuilt : rebuild 0 (reactors.zip (members.map ReactorGroupMember.ingress)) with
      | error panic => exact ⟨_, _, .rebuildPanics hpc heq halone hrebuilt, rfl⟩
      | ok rebuilt => exact ⟨_, _, .unwrap hpc heq halone hrebuilt, rfl⟩
  | returned result =>
    by_cases hsettled : ∀ k, Settled (s.workers k)
    · exact .inl ⟨⟨result, rfl⟩, hsettled⟩
    · obtain ⟨k, hk⟩ := not_forall.mp hsettled
      refine .inr ?_
      cases result with
      | ok =>
        obtain ⟨⟨hstart, -⟩, -⟩ := h.fits hpc
        exact h.worker_progress (by rw [hstart]; exact nofun) k hk
      | error error =>
        obtain ⟨-, -, haborted, -⟩ := h.fits hpc
        rcases haborted k with hnone | hfinished
        · rw [hnone] at hk
          exact absurd trivial hk
        · rw [hfinished] at hk
          exact absurd trivial hk
  | panicked panic => exact absurd (h.fits hpc) id

/-! ### What a run has done -/

/-- The worker has been let through the gate, or turned away. -/
def Past : Option (WorkerPc R X P) → Prop
  | none | some .starting | some .waiting => False
  | _ => True

/-- What the joins of a run have left to the spawner. -/
def JoinedBut {n : ℕ} (tr : List (Label n E X P)) (s : State n R S E X P)
    (workers : List (Fin n)) : Prop :=
  ∀ k, s.workers k = none ∨ k ∈ workers ∨ .spawner (.join k) ∈ tr

def JoinedFits {n : ℕ} (tr : List (Label n E X P)) (s : State n R S E X P) :
    SpawnerPc n R S E → Prop
  | .joining _ workers => JoinedBut tr s workers
  | .taking _ _ | .returned (.error _) => JoinedBut tr s []
  | _ => True

/-- What a run has done. -/
structure Traced {n : ℕ} (tr : List (Label n E X P)) (s : State n R S E X P) : Prop where
  runs : ∀ l ∈ tr, l.runs = true → s.gate.decision = some .start
  observed : ∀ {k d}, .worker k (.observe d) ∈ tr → s.gate.decision = some d
  past : ∀ k, Past (s.workers k) → ∃ d, .worker k (.observe d) ∈ tr
  joined : JoinedFits tr s s.spawner

/-- Only `spawn_worker` creates a worker. -/
theorem Step.workers_none (hstep : Step limits name members s l s') {k : Fin members.length}
    (hnone : s.workers k = none) : l = .spawner .create ∨ s'.workers k = none := by
  have hset : ∀ {k₀ pc pc'}, s.workers k₀ = some pc →
      Function.update s.workers k₀ (some pc') k = none := by
    intro k₀ pc pc' hworker
    have hk : k ≠ k₀ := by
      rintro rfl
      rw [hnone] at hworker
      cases hworker
    rw [Function.update_of_ne hk, hnone]
  cases hstep with
  | create => exact .inl rfl
  | wait hworker | observe hworker | disappeared hworker | takeReactor hworker
  | takeReactorPanics hworker | exit _ hworker | unwind _ hworker | dropCaptured hworker =>
    exact .inr (hset hworker)
  | _ => exact .inr hnone

theorem JoinedBut.next {tr : List (Label members.length E X P)}
    {workers : List (Fin members.length)} (h : JoinedBut tr s workers)
    (hstep : Step limits name members s l s') (hcreate : l ≠ .spawner .create) :
    JoinedBut (tr ++ [l]) s' workers := by
  intro k
  rcases h k with hnone | hmem | hjoined
  · exact .inl ((hstep.workers_none hnone).resolve_left hcreate)
  · exact .inr (.inl hmem)
  · exact .inr (.inr (List.mem_append_left _ hjoined))

theorem JoinedFits.next {tr : List (Label members.length E X P)}
    {pc : SpawnerPc members.length R S E} (h : JoinedFits tr s pc)
    (hstep : Step limits name members s l s') (hcreate : l ≠ .spawner .create) :
    JoinedFits (tr ++ [l]) s' pc := by
  cases pc with
  | joining | taking => exact JoinedBut.next h hstep hcreate
  | returned result =>
    cases result with
    | ok => trivial
    | error => exact JoinedBut.next h hstep hcreate
  | _ => trivial

theorem Traced.next_joined {tr : List (Label members.length E X P)} (h : Traced tr s)
    (hinv : Inv limits name members s) (hstep : Step limits name members s l s') :
    JoinedFits (tr ++ [l]) s' s'.spawner := by
  have hjoined := h.joined
  have hstep' := hstep
  cases hstep with
  | invalid hpc =>
    obtain ⟨-, -, hcreated, -⟩ := hinv.fits hpc
    intro k
    refine .inl ?_
    by_contra hne
    exact Nat.not_lt_zero _ ((hcreated k).mp hne)
  | aborted hpc =>
    obtain ⟨-, -, -, -, i, hcreated, hpending⟩ := hinv.fits hpc
    intro k
    by_cases hk : s.workers k = none
    · exact .inl hk
    · refine .inr (.inl ?_)
      rw [hpending, mem_take_finRange]
      exact (hcreated k).mp hk
  | @join failure k workers hpc =>
    rw [hpc] at hjoined
    intro j
    rcases hjoined.next hstep' nofun j with hnone | hmem | hmem
    · exact .inl hnone
    · rcases List.mem_cons.mp hmem with rfl | hmem
      · exact .inr (.inr (List.mem_append_right _ (List.mem_singleton.mpr rfl)))
      · exact .inr (.inl hmem)
    · exact .inr (.inr hmem)
  | drop hpc | take hpc | unwrap hpc =>
    rw [hpc] at hjoined
    exact hjoined.next hstep' nofun
  | wait | observe | disappeared | takeReactor | takeReactorPanics | exit | unwind | dropCaptured
  | supervise | supervisePanics | gate =>
    exact hjoined.next hstep' nofun
  | _ => trivial

theorem Traced.next {tr : List (Label members.length E X P)} (h : Traced tr s)
    (hinv : Inv limits name members s) (hstep : Step limits name members s l s') :
    Traced (tr ++ [l]) s' := by
  refine ⟨fun l' hl' hruns => ?_, fun {k d} hmem => ?_, fun k hpast => ?_,
    h.next_joined hinv hstep⟩
  · rcases List.mem_append.mp hl' with hmem | hmem
    · exact hstep.decision (h.runs l' hmem hruns)
    · rw [List.mem_singleton] at hmem
      subst hmem
      cases hstep with
      | @takeReactor k reactor hworker =>
        have hfits := hinv.worker k
        rw [hworker] at hfits
        exact hfits
      | _ => cases hruns
  · rcases List.mem_append.mp hmem with hmem | hmem
    · exact hstep.decision (h.observed hmem)
    · rw [List.mem_singleton] at hmem
      subst hmem
      cases hstep with
      | observe _ hreturned => exact hinv.gate.fits hreturned
  · -- whoever is past the gate was so before, or has just observed the decision
    have hset : ∀ {k₀ pc}, s'.workers = Function.update s.workers k₀ (some pc) →
        (Past (some pc) → Past (s.workers k₀)) → ∃ d, .worker k (.observe d) ∈ tr ++ [l] := by
      intro k₀ pc hworkers hbefore
      have hpast' : Past (s.workers k) := by
        rw [hworkers] at hpast
        by_cases hk : k = k₀
        · subst hk
          rw [Function.update_self] at hpast
          exact hbefore hpast
        · rwa [Function.update_of_ne hk] at hpast
      obtain ⟨d, hmem⟩ := h.past k hpast'
      exact ⟨d, List.mem_append_left _ hmem⟩
    have hsame : s'.workers = s.workers → ∃ d, .worker k (.observe d) ∈ tr ++ [l] := by
      intro hworkers
      rw [hworkers] at hpast
      obtain ⟨d, hmem⟩ := h.past k hpast
      exact ⟨d, List.mem_append_left _ hmem⟩
    cases hstep with
    | @observe k₀ d hworker =>
      by_cases hk : k = k₀
      · subst hk
        exact ⟨d, List.mem_append_right _ (List.mem_singleton.mpr rfl)⟩
      · obtain ⟨d', hmem⟩ := h.past k (by
          change Past (Function.update s.workers k₀ _ k) at hpast
          rwa [Function.update_of_ne hk] at hpast)
        exact ⟨d', List.mem_append_left _ hmem⟩
    | create | wait => exact hset rfl fun hpast => absurd hpast id
    | disappeared hworker hpanicked => exact absurd (hinv.gate.fits hpanicked) id
    | takeReactor hworker | takeReactorPanics hworker | exit _ hworker | unwind _ hworker
    | dropCaptured hworker =>
      refine hset rfl fun _ => ?_
      rw [hworker]
      trivial
    | _ => exact hsame rfl

theorem run_traced {tr : List (Label members.length E X P)}
    (h : (system limits name members E X P).Run tr s) : Traced tr s := by
  refine h.invariant (I := fun tr s => Traced tr s) (fun {s} hinit => ?_) ?_
  · rw [show s = .new members from hinit]
    exact ⟨nofun, nofun, fun k hpast => absurd hpast id, trivial⟩
  · intro tr s l s' hrun htraced hstep
    exact htraced.next (reachable_inv hrun.reachable) hstep

def Party.index {n : ℕ} : Party n → Option (Fin n)
  | .spawner => none
  | .worker k => some k

theorem Party.index_bijective (n : ℕ) : Function.Bijective (Party.index : Party n → _) := by
  constructor
  · intro p q h
    cases p <;> cases q <;> simp_all [Party.index]
  · intro x
    cases x with
    | none => exact ⟨.spawner, rfl⟩
    | some k => exact ⟨.worker k, rfl⟩

theorem card_party (n : ℕ) : Fintype.card (Party n) = n + 1 := by
  rw [Fintype.card_of_bijective (Party.index_bijective n), Fintype.card_option, Fintype.card_fin]

theorem measure_new (members : List (ReactorGroupMember R S)) :
    measure (State.new members : State members.length R S E X P) = 19 * members.length + 20 := by
  have hgate : StartGate.measure (StartGate.State.new : StartGate.State (Party members.length))
      = 9 * (members.length + 1) := by
    simp [StartGate.measure, StartGate.State.new, StartGate.rank, card_party, Nat.mul_comm]
  have hworkers : ∑ k : Fin members.length, workerRank (none : Option (WorkerPc R X P))
      = 6 * members.length := by
    simp [workerRank, Nat.mul_comm]
  rw [measure]
  simp only [State.new, hgate, hworkers, SpawnerPc.rank, supervisorRank]
  omega

/-- **Startup.**  However the threads interleave and whichever creation fails, `spawn`
and the threads it creates reach none of their panics.  A failure hands back all
members as they were supplied; nothing has been run, and every worker created has
returned `Aborted` and been joined.  After a success every worker sees `Start`.  The
decision never changes.  Until `spawn` has returned and the workers are past the gate
some step can be taken, and but for the calls that wake for no reason there are at
most `19 n + 20` of them. -/
theorem startup {tr : List (Label members.length E X P)}
    (h : (system limits name members E X P).Run tr s) :
    ((∀ panic, s.spawner ≠ .panicked panic) ∧ s.supervisor ≠ some .panicked ∧
      ∀ k, s.workers k ≠ some (.finished (.error .slotConsumed)) ∧
        s.workers k ≠ some (.finished (.error .decisionDisappeared))) ∧
    (∀ error, s.spawner = .returned (.error error) →
      error.members = members ∧
      (Rejected limits members error.failure ∧ (∀ k, s.workers k = none) ∨
        Admitted limits members ∧ Explains name s error.failure) ∧
      (∀ l ∈ tr, l.runs = false) ∧
      ∀ k, s.workers k = none ∨
        s.workers k = some (.finished (.ok .aborted)) ∧ .spawner (.join k) ∈ tr) ∧
    (s.spawner = .returned (.ok ()) → s.gate.decision = some .start ∧
      ∀ k, s.workers k ≠ none ∧ (∀ d, .worker k (.observe d) ∈ tr → d = .start) ∧
        (Settled (s.workers k) → .worker k (.observe .start) ∈ tr)) ∧
    (∀ d, s.gate.decision = some d → ∀ tr' s', Steps (Step limits name members) s tr' s' →
      s'.gate.decision = some d) ∧
    (((∃ result, s.spawner = .returned result) ∧ ∀ k, Settled (s.workers k)) ∨
      CanStep limits name s) ∧
    (tr.map Label.cost).sum ≤ 19 * members.length + 20 + (tr.map Label.gain).sum := by
  have hinv := reachable_inv h.reachable
  have htraced := run_traced h
  refine ⟨⟨?_, hinv.supervisor.1, fun k => ⟨?_, ?_⟩⟩, ?_, ?_, ?_, hinv.progress, ?_⟩
  · intro panic hpc
    exact hinv.fits hpc
  · intro hworker
    have hfits := hinv.worker k
    rw [hworker] at hfits
    exact hfits
  · intro hworker
    have hfits := hinv.worker k
    rw [hworker] at hfits
    exact hfits
  · intro error hpc
    obtain ⟨hmembers, -, haborted, hcause⟩ := hinv.fits hpc
    have hjoined := htraced.joined
    rw [hpc] at hjoined
    have hstart : s.gate.decision ≠ some .start := by
      rcases hcause with ⟨-, hundecided, -⟩ | ⟨-, -, hdecided⟩
      · rw [hundecided.1]
        exact nofun
      · rw [hdecided.1]
        exact nofun
    refine ⟨hmembers, ?_, fun l hl => ?_, fun k => ?_⟩
    · rcases hcause with ⟨hrejected, -, hcreated⟩ | ⟨hadmitted, hexplains, -⟩
      · refine .inl ⟨hrejected, fun k => ?_⟩
        by_contra hne
        exact Nat.not_lt_zero _ ((hcreated k).mp hne)
      · exact .inr ⟨hadmitted, hexplains⟩
    · exact Bool.eq_false_iff.mpr fun hruns => hstart (htraced.runs l hl hruns)
    · rcases haborted k with hnone | hfinished
      · exact .inl hnone
      · refine .inr ⟨hfinished, ?_⟩
        rcases hjoined k with hnone | hmem | hmem
        · rw [hnone] at hfinished
          cases hfinished
        · exact absurd hmem List.not_mem_nil
        · exact hmem
  · intro hpc
    obtain ⟨⟨hstart, -⟩, -, hcreated⟩ := hinv.fits hpc
    have hobserved : ∀ {k d}, .worker k (.observe d) ∈ tr → d = .start := by
      intro k d hmem
      exact Option.some_inj.mp ((htraced.observed hmem).symm.trans hstart)
    refine ⟨hstart, fun k => ⟨(hcreated k).mpr k.isLt, fun d => hobserved, fun hsettled => ?_⟩⟩
    have hpast : Past (s.workers k) := by
      have hne := (hcreated k).mpr k.isLt
      cases hworker : s.workers k with
      | none => exact absurd hworker hne
      | some pc =>
        rw [hworker] at hsettled
        cases pc with
        | running | finished => trivial
        | _ => exact absurd hsettled id
    obtain ⟨d, hmem⟩ := htraced.past k hpast
    rwa [hobserved hmem] at hmem
  · intro d hd tr' s' hrun
    exact hrun.preserves (P := fun s => s.gate.decision = some d)
      (fun hu hstep => Step.decision hstep hu) hd
  · obtain ⟨s₀, hinit, hrun⟩ := h
    rw [show s₀ = .new members from hinit] at hrun
    have hle := hrun.balanced Label.cost Label.gain measure
      (fun hu hstep => ⟨Inv.next hu hstep, Step.measured hstep hu⟩) new_inv
    rw [measure_new] at hle
    omega

/-- Two members, each in its place. -/
def pair : List (ReactorGroupMember ℕ ℕ) := [⟨0, 10, 20⟩, ⟨1, 11, 21⟩]

/-- The second thread cannot be created; the first worker, which has not even reached
the gate, is turned away and joined, and both members come back. -/
theorem startup_refused :
    ∃ tr s, (system ⟨2, by decide⟩ "g" pair Unit Unit Unit).Run tr s ∧
      ∃ error, s.spawner = .returned (.error error) ∧ error.members = pair ∧
        (∀ l ∈ tr, l.runs = false) ∧ s.workers ⟨0, by decide⟩ = some (.finished (.ok .aborted)) := by
  have hinit : (system ⟨2, by decide⟩ "g" pair Unit Unit Unit).init (.new pair) := rfl
  have hcreate := (((TransitionSystem.Run.start hinit).next
    (.validated rfl rfl (by decide))).next (.clone (k := ⟨0, by decide⟩) rfl rfl)).next
    (.create rfl (by decide))
  have hrefuse := (hcreate.next (.clone (k := ⟨1, by decide⟩) rfl rfl)).next
    (.refuse () rfl (by decide))
  -- the spawner closes the gate
  have habort := (((hrefuse.next (.abort rfl (.call _ rfl))).next
    (.gate (.acquire (p := .spawner) rfl rfl) nofun)).next
    (.gate (.decide (p := .spawner) rfl) nofun)).next (.gate (.release (p := .spawner) rfl) nofun)
  have hjoining := habort.next (.aborted rfl rfl)
  -- the worker looks at it
  have hwait := ((hjoining.next (.wait (k := ⟨0, by decide⟩) rfl (.call _ rfl))).next
    (.gate (.acquire (p := .worker ⟨0, by decide⟩) rfl rfl) nofun)).next
    (.gate (.pass (p := .worker ⟨0, by decide⟩) rfl rfl) nofun)
  have hseen := (hwait.next (.gate (.unwrap (p := .worker ⟨0, by decide⟩) rfl rfl) nofun)).next
    (.gate (.release (p := .worker ⟨0, by decide⟩) rfl) nofun)
  have hgone := (hseen.next (.observe (k := ⟨0, by decide⟩) rfl rfl)).next
    (.dropCaptured (k := ⟨0, by decide⟩) rfl)
  have htaken := (((hgone.next (.join rfl rfl)).next (.drop rfl)).next
    (.take (k := ⟨0, by decide⟩) rfl rfl rfl)).next (.take (k := ⟨1, by decide⟩) rfl rfl rfl)
  have hrun := htaken.next (.unwrap rfl rfl rfl rfl)
  obtain ⟨-, herror, -⟩ := startup hrun
  obtain ⟨hmembers, -, hruns, -⟩ := herror _ rfl
  exact ⟨_, _, hrun, _, rfl, hmembers, hruns, rfl⟩

end GroupStartup

end Calandria
