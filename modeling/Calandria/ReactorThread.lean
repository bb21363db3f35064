/-
One reactor on a thread of its own.

`Reactor::spawn` puts the reactor into a shared slot, from which the new thread takes
it, or the caller if the thread could not be created.  The handle that a caller gets
can request termination from then on, even before the thread has looked at the slot.

* `CallerPc`, `ThreadPc`, `Step` — the caller, the thread and the reactor, interleaved;
* `Inv` — who has the reactor;
* `Idle` — a reactor that is asked to terminate before its loop begins;
* `spawned_once` — what this says of every interleaving.
-/
import Calandria.GroupSupervisor

namespace Calandria

namespace Reactor

variable {D C W : Type}

/-- A member that is done takes no step. -/
theorem Member.Step.not_dropped {m m' : Member D C W}
    {event : Event D C W} (h : Member.Step m event m')
    (outcome : Option (ReactorOutcome D C W)) : m.pc ≠ .dropped outcome := by
  intro hpc
  cases h with
  | panic hcalling =>
    rw [hpc] at hcalling
    cases hcalling
  | _ hpc' => cases hpc.symm.trans hpc'

/-- A loop that has been asked to terminate before it has begun anything. -/
inductive OwnerPc.Idle : OwnerPc D C W → Prop
  | checking : Idle .checking
  | terminating : Idle .terminating
  | exited : Idle (.exited .terminated)
  | dropped : Idle (.dropped (some .terminated))

/-- It begins nothing, and terminates. -/
theorem Member.Step.idle {m m' : Member D C W} {event : Event D C W}
    (h : Member.Step m event m') (htracked : m.Tracked) (hpublished : m.control ≠ .running)
    (hidle : m.pc.Idle) : m'.pc.Idle ∧ event.cost = 0 := by
  generalize hpc : m.pc = pc at hidle
  cases hidle with
  | checking =>
    cases h with
    | check =>
      have hseen := htracked.sees (by rw [hpc]; rfl) hpublished
      refine ⟨?_, rfl⟩
      show (if terminationRequested m.control then OwnerPc.terminating else .stepping).Idle
      rw [if_pos hseen]
      exact .terminating
    | panic hcalling => rw [hpc] at hcalling; cases hcalling
    | _ hpc' => cases hpc.symm.trans hpc'
  | terminating =>
    cases h with
    | terminate => exact ⟨.exited, rfl⟩
    | panic hcalling => rw [hpc] at hcalling; cases hcalling
    | _ hpc' => cases hpc.symm.trans hpc'
  | exited =>
    cases h with
    | drop hpc' =>
      cases hpc.symm.trans hpc'
      exact ⟨.dropped, rfl⟩
    | panic hcalling => rw [hpc] at hcalling; cases hcalling
    | _ hpc' => cases hpc.symm.trans hpc'
  | dropped => exact absurd hpc (h.not_dropped _)

end Reactor

namespace ReactorThread

-- `D`, `C` and `W`: the errors of the duty, the clock and the waiter; `E`: those of the
-- termination wake; `O`: those of the operating system; `P`: the payloads of panics
variable {D C W E O P : Type}

/-- What `join` returns. -/
abbrev Joined (D C W P : Type) := Except P (ReactorExit D C W)

/-- Where the caller of `spawn` is. -/
inductive CallerPc (D C W O P : Type)
  /-- Is about to look at the name. -/
  | naming
  /-- The reactor is in the slot. -/
  | creating
  /-- The thread could not be created. -/
  | recovering (source : O)
  /-- `spawn` has returned the reactor. -/
  | refused (source : IoError O)
  /-- `spawn` has returned the handle. -/
  | spawned
  | joined (result : Joined D C W P)
  /-- "reactor spawn ownership invariant violated" -/
  | panicked

/-- Where the new thread is. -/
inductive ThreadPc
  | absent
  /-- Is about to take the reactor out of the slot. -/
  | starting
  | running
  /-- "reactor spawn ownership invariant violated" -/
  | panicked

structure State (D C W E O P : Type) where
  reactor : Reactor.State D C W E
  /-- The reactor is in the slot. -/
  slot : Bool
  caller : CallerPc D C W O P
  thread : ThreadPc

inductive Label (D C W E O : Type)
  | reject
  | share
  | create
  | refuse (source : O)
  | recover
  | take
  | reactor (label : Reactor.Label D C W E)
  | join

/-- What the reactor does. -/
def Label.inner : Label D C W E O → List (Reactor.Label D C W E)
  | .reactor label => [label]
  | _ => []

namespace State

def new (host : EmbeddedHost) : State D C W E O P where
  reactor := ⟨.new host, fun _ => none⟩
  slot := false
  caller := .naming
  thread := .absent

/-- What the reactor and its handle may do: the loop is run by the thread, and a request
begins at the handle. -/
def free (s : State D C W E O P) : Reactor.Label D C W E → Prop
  | .owner _ => s.thread = .running
  | .request _ (.publish _) => s.caller = .spawned
  | .request _ _ => True

end State

/-- What a thread that is done with its reactor returns. -/
def threadResult (m : Reactor.Member D C W) (payload : P) : Option (Joined D C W P) :=
  match m.pc with
  | .dropped (some outcome) => some (.ok ⟨m.host, outcome, m.snapshot⟩)
  | .dropped none => some (.error payload)
  | _ => none

/-- One step of the caller, of the thread or of the reactor. -/
inductive Step (name : String) (s : State D C W E O P) :
    Label D C W E O → State D C W E O P → Prop
  | reject : s.caller = .naming → GroupStartup.hasNul name = true →
      Step name s .reject { s with caller := .refused .invalidThreadName }
  | share : s.caller = .naming → GroupStartup.hasNul name = false →
      Step name s .share { s with slot := true, caller := .creating }
  | create : s.caller = .creating →
      Step name s .create { s with caller := .spawned, thread := .starting }
  /-- The closure is dropped, and with it its handle of the slot. -/
  | refuse (source : O) : s.caller = .creating →
      Step name s (.refuse source) { s with caller := .recovering source }
  | recover {source} : s.caller = .recovering source → s.slot = true →
      Step name s .recover { s with slot := false, caller := .refused (.os source) }
  | recoverPanics {source} : s.caller = .recovering source → s.slot = false →
      Step name s .recover { s with caller := .panicked }
  | take : s.thread = .starting → s.slot = true →
      Step name s .take { s with slot := false, thread := .running }
  | takePanics : s.thread = .starting → s.slot = false →
      Step name s .take { s with thread := .panicked }
  | reactor {label reactor} : Reactor.Step s.reactor label reactor → s.free label →
      Step name s (.reactor label) { s with reactor }
  | join {result} (payload : P) : s.caller = .spawned →
      threadResult s.reactor.member payload = some result →
      Step name s .join { s with caller := .joined result }

/-! ### Who has the reactor -/

/-- The handle exists, or has been used up. -/
def CallerPc.hasSpawned : CallerPc D C W O P → Prop
  | .spawned | .joined _ => True
  | _ => False

/-- The reactor is in one place: with the caller, in the slot, or with the thread. -/
def Placed (s : State D C W E O P) : Prop :=
  match s.caller with
  | .naming | .refused _ => s.slot = false ∧ s.thread = .absent
  | .creating | .recovering _ => s.slot = true ∧ s.thread = .absent
  | .spawned | .joined _ =>
    (s.slot = true ∧ s.thread = .starting) ∨ (s.slot = false ∧ s.thread = .running)
  | .panicked => False

structure Inv (name : String) (host : EmbeddedHost) (s : State D C W E O P) : Prop where
  placed : Placed s
  untouched : ¬s.caller.hasSpawned → s.reactor = ⟨.new host, fun _ => none⟩
  named : s.caller ≠ .naming →
    (GroupStartup.hasNul name = true ↔ s.caller = .refused .invalidThreadName)
  joined : ∀ result, s.caller = .joined result →
    ∃ payload, threadResult s.reactor.member payload = some result

variable {name : String} {host : EmbeddedHost} {s s' : State D C W E O P} {l : Label D C W E O}

theorem new_inv (name : String) (host : EmbeddedHost) :
    Inv name host (State.new host : State D C W E O P) := by
  refine ⟨⟨rfl, rfl⟩, fun _ => rfl, fun hne => absurd rfl hne, ?_⟩
  intro result hresult
  cases hresult

/-- Where the thread says that the reactor is. -/
theorem Placed.of_thread (h : Placed s) (hthread : s.thread ≠ .absent) :
    s.caller.hasSpawned ∧
      ((s.slot = true ∧ s.thread = .starting) ∨ (s.slot = false ∧ s.thread = .running)) := by
  rw [Placed] at h
  cases hcaller : s.caller with
  | spawned | joined =>
    rw [hcaller] at h
    exact ⟨trivial, h⟩
  | panicked =>
    rw [hcaller] at h
    exact h.elim
  | naming | refused | creating | recovering =>
    rw [hcaller] at h
    exact absurd h.2 hthread

theorem Placed.of_spawned (hspawned : s.caller.hasSpawned)
    (h : (s.slot = true ∧ s.thread = .starting) ∨ (s.slot = false ∧ s.thread = .running)) :
    Placed s := by
  rw [Placed]
  cases hcaller : s.caller with
  | spawned | joined => exact h
  | _ =>
    rw [hcaller] at hspawned
    exact hspawned.elim

theorem Step.placed (h : Step name s l s') (hinv : Inv name host s) : Placed s' := by
  have hplaced := hinv.placed
  cases h with
  | reject hcaller | share hcaller | create hcaller | refuse _ hcaller =>
    rw [Placed, hcaller] at hplaced
    obtain ⟨hslot, hthread⟩ := hplaced
    first
      | exact ⟨hslot, hthread⟩
      | exact ⟨rfl, hthread⟩
      | exact .inl ⟨hslot, rfl⟩
  | recover hcaller =>
    rw [Placed, hcaller] at hplaced
    exact ⟨rfl, hplaced.2⟩
  | recoverPanics hcaller hslot =>
    rw [Placed, hcaller, hslot] at hplaced
    exact absurd hplaced.1 Bool.false_ne_true
  | take hthread =>
    obtain ⟨hspawned, -⟩ := hplaced.of_thread (by rw [hthread]; exact nofun)
    exact .of_spawned hspawned (.inr ⟨rfl, rfl⟩)
  | takePanics hthread hslot =>
    obtain ⟨-, ⟨htrue, -⟩ | ⟨-, hrunning⟩⟩ := hplaced.of_thread (by rw [hthread]; exact nofun)
    · rw [hslot] at htrue
      cases htrue
    · rw [hthread] at hrunning
      cases hrunning
  | reactor => exact hplaced
  | join _ hcaller =>
    rw [Placed, hcaller] at hplaced
    exact hplaced

theorem pc_of_threadResult {m : Reactor.Member D C W} {payload : P} {result : Joined D C W P}
    (h : threadResult m payload = some result) : ∃ outcome, m.pc = .dropped outcome := by
  rw [threadResult] at h
  split at h
  · exact ⟨_, ‹_›⟩
  · exact ⟨_, ‹_›⟩
  · cases h

/-- Until the handle exists, the reactor is left alone. -/
theorem Step.untouched (h : Step name s l s') (hinv : Inv name host s)
    (hnot : ¬s'.caller.hasSpawned) : s'.reactor = ⟨.new host, fun _ => none⟩ := by
  cases h with
  | reject hcaller | share hcaller | refuse _ hcaller | recover hcaller | recoverPanics hcaller =>
    refine hinv.untouched ?_
    rw [hcaller]
    exact id
  | create | join => exact absurd trivial hnot
  | take | takePanics => exact hinv.untouched hnot
  | @reactor label reactor hreactor hfree =>
    have halone := hinv.untouched hnot
    have hthread : s.thread ≠ .running := fun hrunning =>
      hnot (hinv.placed.of_thread (by rw [hrunning]; exact nofun)).1
    cases hreactor with
    | owner => exact absurd hfree hthread
    | publish =>
      refine absurd ?_ hnot
      show s.caller.hasSpawned
      rw [show s.caller = .spawned from hfree]
      trivial
    | complete _ hpublished | panic hpublished =>
      rw [halone] at hpublished
      cases hpublished

theorem Step.named (h : Step name s l s') (hinv : Inv name host s) (hne : s'.caller ≠ .naming) :
    GroupStartup.hasNul name = true ↔ s'.caller = .refused .invalidThreadName := by
  cases h with
  | reject _ hnul => exact iff_of_true hnul rfl
  | share _ hnul => exact iff_of_false (by rw [hnul]; exact nofun) nofun
  | create hcaller | refuse _ hcaller | recover hcaller | recoverPanics hcaller | join _ hcaller =>
    have hbefore := hinv.named (by rw [hcaller]; exact nofun)
    rw [hcaller] at hbefore
    exact iff_of_false (fun hnul => nomatch hbefore.mp hnul) nofun
  | take | takePanics | reactor => exact hinv.named hne

theorem Step.joined (h : Step name s l s') (hinv : Inv name host s) {result : Joined D C W P}
    (hresult : s'.caller = .joined result) :
    ∃ payload, threadResult s'.reactor.member payload = some result := by
  cases h with
  | join payload _ hdone =>
    cases hresult
    exact ⟨payload, hdone⟩
  | take | takePanics => exact hinv.joined result hresult
  | reactor hreactor hfree =>
    obtain ⟨payload, hdone⟩ := hinv.joined result hresult
    refine ⟨payload, ?_⟩
    cases hreactor with
    | owner hstep =>
      obtain ⟨outcome, hpc⟩ := pc_of_threadResult hdone
      exact absurd hpc (hstep.not_dropped outcome)
    | publish => cases hresult.symm.trans hfree
    | complete | panic => exact hdone
  | _ => cases hresult

theorem Inv.next (h : Inv name host s) (hstep : Step name s l s') : Inv name host s' :=
  ⟨hstep.placed h, hstep.untouched h, hstep.named h, fun _ => hstep.joined h⟩

/-! ### Whole runs -/

variable {tr : List (Label D C W E O)}

theorem run_inv (hrun : Steps (Step name) (.new host) tr s) : Inv name host s :=
  hrun.preserves Inv.next (new_inv name host)

/-- What the reactor does is a run of the reactor. -/
theorem run_inner {s₀ : State D C W E O P} (hrun : Steps (Step name) s₀ tr s) :
    Steps Reactor.Step s₀.reactor (tr.flatMap Label.inner) s.reactor := by
  refine (hrun.refines State.reactor Label.inner (P := fun _ => True) ?_ trivial).2
  intro u l v _ hstep
  refine ⟨trivial, ?_⟩
  cases hstep with
  | reactor hreactor => exact .single hreactor
  | _ => exact .refl

/-- Before the loop takes a step, it has not begun. -/
theorem run_checking (hrun : Steps (Step name) (.new host) tr s)
    (hnone : ∀ event, .reactor (.owner event) ∉ tr) : s.reactor.member.pc = .checking := by
  refine hrun.invariant (I := fun tr (s : State D C W E O P) =>
    (∀ event, .reactor (.owner event) ∉ tr) → s.reactor.member.pc = .checking)
    (fun _ => rfl) ?_ hnone
  intro tr u l v _ ih hstep hnone
  have hbefore := ih fun event hmem => hnone event (List.mem_append_left _ hmem)
  cases hstep with
  | reactor hreactor =>
    cases hreactor with
    | owner => exact absurd (List.mem_append_right _ List.mem_cons_self) (hnone _)
    | publish | complete | panic => exact hbefore
  | _ => exact hbefore

/-- An idle reactor that is asked to terminate stays idle. -/
theorem run_idle {u v : Reactor.State D C W E} {labels : List (Reactor.Label D C W E)}
    (htracked : u.member.Tracked) (hpublished : u.member.control ≠ .running)
    (hidle : u.member.pc.Idle)
    (hrun : Steps Reactor.Step u labels v) :
    v.member.pc.Idle ∧ (labels.map Reactor.Label.cost).sum = 0 := by
  have hall := hrun.invariant (I := fun labels (v : Reactor.State D C W E) =>
    (v.member.Tracked ∧ v.member.control ≠ .running ∧ v.member.pc.Idle) ∧
      (labels.map Reactor.Label.cost).sum = 0) ⟨⟨htracked, hpublished, hidle⟩, rfl⟩ ?_
  · exact ⟨hall.1.2.2, hall.2⟩
  · rintro labels w label x - ⟨⟨hw, hpublished, hidle⟩, hsum⟩ hstep
    have hnext : x.member.pc.Idle ∧ label.cost = 0 := by
      cases hstep with
      | owner hstep => exact hstep.idle hw hpublished hidle
      | publish | complete | panic => exact ⟨hidle, rfl⟩
    refine ⟨⟨hstep.tracked hw, hstep.published hpublished, hnext.1⟩, ?_⟩
    rw [List.map_append, List.sum_append, hsum, List.map_singleton, List.sum_singleton, hnext.2]

/-- What `join` says of the reactor. -/
def Tells (m : Reactor.Member D C W) : Joined D C W P → Prop
  | .ok exit => m.pc = .dropped (some exit.outcome) ∧ exit.host = m.host ∧
      exit.snapshot = m.snapshot
  | .error _ => m.pc = .dropped none

/-- **A spawned reactor is run once.**  However the caller, the thread and the requests
interleave:

* the reactor is always in one place, and neither of the two who take it out of the slot
  finds the slot empty;
* once the thread has it, it is run as a reactor is run on its own;
* a failure returns it as it was, without a thread that could run it, and blames the name
  exactly if there is a null byte in it;
* `join` returns the exit of this reactor, or its panic, and the host of the exit is in the
  phase of the outcome if it was running to begin with;
* a request that is published before the loop takes its first step keeps it from beginning
  any turn or wait, and if the loop ends, it ends as terminated. -/
theorem spawned_once (hrun : Steps (Step name) (.new host : State D C W E O P) tr s) :
    (Placed s ∧ s.caller ≠ .panicked ∧ s.thread ≠ .panicked) ∧
    Steps Reactor.Step ⟨.new host, fun _ => none⟩ (tr.flatMap Label.inner) s.reactor ∧
    (∀ source, s.caller = .refused source →
      s.reactor = ⟨.new host, fun _ => none⟩ ∧ s.thread = .absent ∧
      (GroupStartup.hasNul name = true ↔ source = .invalidThreadName)) ∧
    (∀ result, s.caller = .joined result → Tells s.reactor.member result) ∧
    (host.phase = .running → ∀ exit, s.caller = .joined (.ok exit) →
      exit.host.phase = Reactor.outcomePhase exit.outcome) ∧
    ∀ before i publication after,
      tr = before ++ .reactor (.request i (.publish publication)) :: after →
      (∀ event, .reactor (.owner event) ∉ before) →
      ((after.flatMap Label.inner).map Reactor.Label.cost).sum = 0 ∧
        ∀ outcome, s.reactor.member.pc.outcome = some outcome → outcome = .terminated := by
  have hinv := run_inv hrun
  have hinner : Steps Reactor.Step ⟨.new host, fun _ => none⟩ (tr.flatMap Label.inner) s.reactor :=
    run_inner hrun
  have htells : ∀ {result}, s.caller = .joined result → Tells s.reactor.member result := by
    intro result hcaller
    obtain ⟨payload, hdone⟩ := hinv.joined result hcaller
    rw [threadResult] at hdone
    split at hdone
    · next outcome hpc =>
      cases hdone
      exact ⟨hpc, rfl, rfl⟩
    · next hpc =>
      cases hdone
      exact hpc
    · cases hdone
  have hplaced := hinv.placed
  refine ⟨⟨hplaced, fun hcaller => ?_, fun hthread => ?_⟩, hinner, fun source hcaller => ?_,
    fun result => htells, fun hrunning exit hcaller => ?_, ?_⟩
  · rw [Placed, hcaller] at hplaced
    exact hplaced
  · obtain ⟨-, ⟨-, hother⟩ | ⟨-, hother⟩⟩ := hplaced.of_thread (by rw [hthread]; exact nofun)
    all_goals
      rw [hthread] at hother
      cases hother
  · have hnamed := hinv.named (by rw [hcaller]; exact nofun)
    rw [Placed, hcaller] at hplaced
    rw [hcaller] at hnamed
    refine ⟨hinv.untouched (by rw [hcaller]; exact id), hplaced.2, hnamed.trans ?_⟩
    exact ⟨fun h => by cases h; rfl, fun h => by rw [h]⟩
  · obtain ⟨hpc, hhost, -⟩ := htells hcaller
    have hreachable : (Reactor.system D C W E).Reachable s.reactor :=
      ⟨_, _, ⟨host, hrunning, rfl⟩, hinner⟩
    rw [hhost]
    exact (Reactor.reachable_inv hreachable).wf.phase _ (by rw [hpc]; rfl)
  · intro before i publication after htr hnone
    rw [htr, List.append_cons] at hrun
    obtain ⟨v, hbefore, hafter⟩ := hrun.split
    obtain ⟨u, hu, hstep⟩ := hbefore.of_snoc
    have hchecking := run_checking hu hnone
    have hv : v.reactor.member.Tracked :=
      (run_inner hbefore).preserves (P := fun u => u.member.Tracked)
        (fun hu hstep => hstep.tracked hu) (Reactor.Member.new_tracked host)
    have hpublished : v.reactor.member.control ≠ .running ∧ v.reactor.member.pc = .checking := by
      generalize hl : (Label.reactor (.request i (.publish publication)) : Label D C W E O) = l
        at hstep
      cases hstep with
      | reactor hreactor =>
        cases hl
        cases hreactor with
        | publish => exact ⟨Reactor.publishTermination_ne_running _, hchecking⟩
      | _ => cases hl
    obtain ⟨hidle, hcost⟩ := run_idle hv hpublished.1 (by rw [hpublished.2]; exact .checking)
      (run_inner hafter)
    refine ⟨hcost, fun outcome houtcome => ?_⟩
    generalize s.reactor.member.pc = pc at hidle houtcome
    cases hidle <;> cases houtcome <;> rfl

/-- A request comes in between the creation of the thread and its first look at the slot;
the reactor terminates without a turn. -/
theorem spawned_once_terminated :
    ∃ (tr : List (Label Unit Unit Unit Unit Unit)) (s : State Unit Unit Unit Unit Unit Unit),
      Steps (Step "reactor") (.new (.new .default)) tr s ∧
      (∃ exit, s.caller = .joined (.ok exit) ∧ exit.outcome = .terminated) ∧
      Tells s.reactor.member (.ok ⟨(EmbeddedHost.new .default).terminate, .terminated, .default⟩ :
        Joined Unit Unit Unit Unit) := by
  have hstart : Steps (Step "reactor")
      (.new (.new .default) : State Unit Unit Unit Unit Unit Unit) [] _ := .refl
  have hspawned := (hstart.snoc (.share rfl (by decide +kernel))).snoc (.create rfl)
  have hrequested := hspawned.snoc (.reactor (.publish (i := 0) rfl) rfl)
  have hended := (((hrequested.snoc (.take rfl rfl)).snoc (.reactor (.owner (.check rfl)) rfl)).snoc
    (.reactor (.owner (.terminate rfl)) rfl)).snoc (.reactor (.owner (.drop rfl)) rfl)
  have hjoined := hended.snoc (.join () rfl rfl)
  obtain ⟨-, -, -, htells, -⟩ := spawned_once hjoined
  exact ⟨_, _, hjoined, ⟨_, rfl, rfl⟩, htells _ rfl⟩

end ReactorThread

end Calandria
