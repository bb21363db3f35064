/-
The exit of a reactor group does not depend on the order of completion.

The supervisor waits for consumer code or for a lock only, and comes to its end after
a bounded number of steps; by then it has joined each worker once, and the table of
exits it concludes from is that of the workers' own results.

* `measure`, `Inv.progress` — the steps that are left, and that one can be taken;
* `MemberOwn` — the exit that a worker has made of its member;
* `Supervisor.group_exit` — what this says of every interleaving, and of two of them.
-/
import Calandria.SupervisorJoins

namespace Calandria

namespace Supervisor

open Calandria.Group (Position)
open GroupTermination (first second)

variable {reactors : NonZeroUsize} {T U V D C W E P : Type}
  {s s' : State reactors T U V D C W E P} {l : Label reactors T U V D C W E P}

/-! ### Progress -/

/-- A step of a worker or of the supervisor. -/
def Label.cost : Label reactors T U V D C W E P → ℕ
  | .group _ => 0
  | .worker _ _ | .supervisor _ => 1

/-- The steps that a worker has still to take, at most. -/
def WorkerPc.rank : WorkerPc D C W P → ℕ
  | .waiting => 6
  | .running => 5
  | .classifying _ => 4
  | .terminating _ => 3
  | .publishing _ => 2
  | .dropping _ => 1
  | .finished _ => 0

/-- The same for a closer. -/
def closerRank : Option (Group.ClosePc reactors) → ℕ
  | some (.locking next) => 2 * (reactors.get.val - next) + 1
  | some (.unlocking k) => 2 * (reactors.get.val - k.val)
  | none | some .returned => 0

def supervisorRank (g : GroupTermination.State reactors T U V D C W E) :
    SupervisorPc reactors D C W P → ℕ
  | .receiving round => 3 * (reactors.get.val - round) + 2 * reactors.get.val + 4
  | .taking round _ => 3 * (reactors.get.val - round) + 2 * reactors.get.val + 3
  | .joining round _ _ => 3 * (reactors.get.val - round) + 2 * reactors.get.val + 2
  | .closing c => closerRank (g.admission.closers c) + 2
  | .collecting => 1
  | .finished _ | .panicked _ => 0

def measure (s : State reactors T U V D C W E P) : ℕ :=
  supervisorRank s.group s.supervisor + ∑ k, (s.workers k).rank

theorem Inv.rank_frame (h : Inv s) (hframe : Frame s s') :
    supervisorRank s'.group s'.supervisor = supervisorRank s.group s.supervisor := by
  rw [hframe.supervisor]
  cases hpc : s.supervisor with
  | closing c =>
    obtain ⟨-, pc, hc, -⟩ := h.fits hpc
    rw [supervisorRank, supervisorRank, hframe.closer hpc hc, hc]
  | _ => rfl

theorem Inv.measured_worker (h : Inv s) (hframe : Frame s s') {k : Position reactors}
    {pc pc' : WorkerPc D C W P} (hk : s.workers k = pc)
    (hworkers : s'.workers = Function.update s.workers k pc') (hrank : pc'.rank < pc.rank) :
    1 + measure s' ≤ measure s := by
  have hsum : ∑ j, (s'.workers j).rank + pc.rank = ∑ j, (s.workers j).rank + pc'.rank := by
    rw [hworkers, ← hk]
    exact sum_update WorkerPc.rank s.workers k pc'
  rw [measure, measure, h.rank_frame hframe]
  omega

theorem closerRank_next {g g' : GroupTermination.State reactors T U V D C W E} {c : ℕ}
    {event : Group.CloseEvent reactors} (hsome : g.admission.closers c ≠ none)
    (hstep : GroupTermination.Step g (.admission (.close c event)) g') :
    closerRank (g'.admission.closers c) < closerRank (g.admission.closers c) := by
  have hset : ∀ {pc pc' : Group.ClosePc reactors}, g.admission.closers c = some pc →
      closerRank (some pc') < closerRank (some pc) →
      closerRank (Function.update g.admission.closers c (some pc') c)
        < closerRank (g.admission.closers c) := by
    intro pc pc' hc hrank
    rwa [Function.update_self, hc]
  cases hstep with
  | admission hadmission =>
    cases hadmission with
    | store hnone => exact absurd hnone hsome
    | barrier hc => exact hset hc (Nat.lt_succ_self _)
    | @pass _ k hc =>
      refine hset hc ?_
      have hk := k.isLt
      simp only [closerRank]
      omega
    | closed hc => exact hset hc (Nat.succ_pos _)

theorem Step.measured (hstep : Step s l s') (h : Inv s) : l.cost + measure s' ≤ measure s := by
  have hframe : l.supervises = false → Frame s s' := hstep.frame
  have hrank : supervisorRank s'.group s'.supervisor < supervisorRank s.group s.supervisor →
      s'.workers = s.workers → 1 + measure s' ≤ measure s := by
    intro hlt hworkers
    rw [measure, measure, hworkers]
    omega
  cases hstep with
  | group =>
    rw [Label.cost, measure, measure, h.rank_frame (hframe rfl), Nat.zero_add]
  | @pass k hk =>
    refine h.measured_worker (hframe rfl) hk rfl ?_
    split_ifs <;> simp [WorkerPc.rank]
  | exit _ hk | calm hk | fatal hk | terminated hk | unwind _ hk | publish hk | publishClosed hk
  | drop hk =>
    exact h.measured_worker (hframe rfl) hk rfl (by simp [WorkerPc.rank])
  | receive hpc | closedEarly hpc | unrepresentable hpc | take hpc | duplicate hpc | joinFails hpc
  | closed hpc | collect hpc | collectFails hpc =>
    refine hrank ?_ rfl
    rw [hpc]
    simp [supervisorRank]
  | join hpc =>
    obtain ⟨htaken, -⟩ := h.fits hpc
    have hle := tally_le Option.isNone s.handles
    rw [Taken] at htaken
    refine hrank ?_ rfl
    rw [hpc]
    simp only [supervisorRank]
    omega
  | @store c group hpc hgroup =>
    refine hrank ?_ rfl
    rw [hpc]
    cases hgroup with
    | admission hadmission =>
      cases hadmission with
      | store =>
        have hclosing : closerRank (Function.update s.group.admission.closers c
            (some (.locking 0)) c) = 2 * reactors.get.val + 1 := by
          rw [Function.update_self]
          rfl
        show closerRank (Function.update s.group.admission.closers c (some (.locking 0)) c) + 2 < _
        rw [hclosing, supervisorRank]
        omega
  | @close c event group hpc hgroup =>
    obtain ⟨-, pc, hc, -⟩ := h.fits hpc
    have hsome : s.group.admission.closers c ≠ none := by
      rw [hc]
      exact Option.some_ne_none pc
    refine hrank ?_ rfl
    show supervisorRank group s.supervisor < _
    rw [hpc]
    exact Nat.add_lt_add_right (closerRank_next hsome hgroup) 2

/-- A worker or the supervisor can step. -/
def CanStep (s : State reactors T U V D C W E P) : Prop := ∃ l s', l.cost = 1 ∧ Step s l s'

/-- The call of `request_termination` has not come to its end. -/
def Requesting (s : State reactors T U V D C W E P) (k : Position reactors) : Prop :=
  s.group.callers (.worker k) ≠ some .panicked ∧
  ∀ termination, s.group.callers (.worker k) ≠ some (.returned termination)

/-- What a group waits for: a member in its reactor, a call that asks for the termination, or
the lock of a shard that the supervisor is about to pass. -/
inductive Waits (s : State reactors T U V D C W E P) : Prop
  | member {k} : s.workers k = .running →
      (∀ payload : P, memberExit (s.group.members k) payload = none) → Waits s
  | termination {k exit} : s.workers k = .terminating exit → Requesting s k → Waits s
  | admission {c} {k : Position reactors} : s.supervisor = .closing c →
      s.group.admission.closers c = some (.locking k.val) →
      (s.group.admission.shards k).admission ≠ none → Waits s

theorem length_le_of_identities {ids : List ReactorId} (hnodup : ids.Nodup)
    (h : ∀ id ∈ ids, ∃ k : Position reactors, id = reactorId k) :
    ids.length ≤ reactors.get.val := by
  have hsubset : ids.toFinset ⊆ Finset.univ.image (reactorId : Position reactors → ReactorId) := by
    intro id hid
    obtain ⟨k, rfl⟩ := h id (List.mem_toFinset.mp hid)
    exact Finset.mem_image_of_mem _ (Finset.mem_univ k)
  have hcard := (Finset.card_le_card hsubset).trans Finset.card_image_le
  rwa [List.toFinset_card_of_nodup hnodup, Finset.card_univ, Fintype.card_fin] at hcard

/-- There is room in the channel for the completion of a worker that has not published. -/
theorem Inv.room (h : Inv s) {k : Position reactors} (hk : published (s.workers k) = false) :
    s.completions.length < reactors.get.val := by
  have hnodup : (reactorId k :: s.completions).Nodup :=
    List.nodup_cons.mpr ⟨h.not_queued hk, h.nodup⟩
  refine length_le_of_identities hnodup fun id hid => ?_
  rcases List.mem_cons.mp hid with rfl | hid
  · exact ⟨k, rfl⟩
  · obtain ⟨k', hk', -⟩ := (h.queued id).mp hid
    exact ⟨k', hk'⟩

theorem Inv.worker_progress [Nonempty P] (h : Inv s) {k : Position reactors}
    (hk : published (s.workers k) = false) (hlistening : s.supervisor.listening = true) :
    CanStep s ∨ Waits s := by
  have hfits := h.worker k
  cases hpc : s.workers k with
  | waiting => exact .inl ⟨_, _, rfl, .pass hpc⟩
  | running =>
    by_cases hdone : ∃ (payload : P) (exit : MemberExit D C W P),
        memberExit (s.group.members k) payload = some exit
    · obtain ⟨payload, exit, hexit⟩ := hdone
      exact .inl ⟨_, _, rfl, .exit payload hpc hexit⟩
    · refine .inr (.member hpc fun payload => ?_)
      by_contra hsome
      obtain ⟨exit, hexit⟩ := Option.ne_none_iff_exists'.mp hsome
      exact hdone ⟨payload, exit, hexit⟩
  | classifying exit =>
    rw [hpc] at hfits
    obtain ⟨hown, hnone⟩ := hfits
    cases hfatal : isFatal exit with
    | false => exact .inl ⟨_, _, rfl, .calm hpc hfatal⟩
    | true =>
      obtain ⟨bound, hbound⟩ := h.fresh
      exact .inl ⟨_, _, rfl, .fatal hpc hfatal
        (.close hnone (hown.mayCall hfatal) (.store (hbound bound (Nat.le_refl _))))⟩
  | terminating exit =>
    rw [hpc] at hfits
    obtain ⟨-, -, hsome⟩ := hfits
    obtain ⟨pc, hcall⟩ := Option.ne_none_iff_exists'.mp hsome
    -- a call that has neither returned nor panicked still runs wakes or waits for a lock
    have hwaits : pc ≠ .panicked → (∀ termination, pc ≠ .returned termination) →
        CanStep s ∨ Waits s := by
      intro hpanicked hreturned
      refine .inr (.termination hpc ⟨?_, fun termination => ?_⟩)
      · rw [hcall]
        exact fun heq => hpanicked (Option.some_inj.mp heq)
      · rw [hcall]
        exact fun heq => hreturned termination (Option.some_inj.mp heq)
    cases pc with
    | returned termination => exact .inl ⟨_, _, rfl, .terminated hpc hcall⟩
    | panicked =>
      obtain ⟨payload⟩ := ‹Nonempty P›
      exact .inl ⟨_, _, rfl, .unwind payload hpc hcall⟩
    | closing | publishing | waking => exact hwaits nofun nofun
  | publishing result => exact .inl ⟨_, _, rfl, .publish hpc hlistening (h.room hk)⟩
  | dropping | finished =>
    rw [hpc] at hk
    cases hk

/-- No party waits for ever but for consumer code and for a lock of another. -/
theorem Inv.progress [Nonempty P] (h : Inv s) :
    (∃ supervised, s.supervisor = .finished supervised) ∨ CanStep s ∨ Waits s := by
  cases hpc : s.supervisor with
  | receiving round =>
    refine .inr ?_
    obtain ⟨htaken, hsettled⟩ := h.fits hpc
    have hle := tally_le Option.isNone s.handles
    rw [show tally Option.isNone s.handles = round from htaken] at hle
    rcases Nat.lt_or_eq_of_le hle with hround | rfl
    · cases hcompletions : s.completions with
      | cons id rest => exact .inl ⟨_, _, rfl, .receive hpc hround hcompletions⟩
      | nil =>
        -- some worker has not been joined, and its completion is not in the channel
        obtain ⟨k, hk⟩ := htaken.exists_handle hround
        refine h.worker_progress (k := k) ?_ (by rw [hpc]; rfl)
        refine Bool.eq_false_iff.mpr fun hpublished => ?_
        have hmem := (h.queued _).mpr ⟨k, rfl, hpublished, hk, by rw [hpc]; exact nofun⟩
        rw [hcompletions] at hmem
        exact absurd hmem List.not_mem_nil
    · obtain ⟨bound, hbound⟩ := h.fresh
      exact .inl ⟨_, _, rfl, .store hpc (.admission (.store (hbound bound (Nat.le_refl _))))⟩
  | taking round id =>
    obtain ⟨-, -, k, rfl, -, hk⟩ := h.fits hpc
    obtain ⟨worker, hworker⟩ := Option.ne_none_iff_exists'.mp hk
    exact .inr (.inl ⟨_, _, rfl, .take hpc (position_reactorId k) hworker⟩)
  | joining round slot worker =>
    obtain ⟨-, rfl, -, -, -, hpublished⟩ := h.fits hpc
    refine .inr (.inl ?_)
    cases hworker : s.workers worker with
    | dropping result => exact ⟨_, _, rfl, .drop hworker⟩
    | finished result =>
      obtain ⟨exit, hsettle⟩ := ResultFits.settle (h.workerFits hworker)
      exact ⟨_, _, rfl, .join hpc hworker hsettle⟩
    | _ =>
      rw [hworker] at hpublished
      cases hpublished
  | closing c =>
    obtain ⟨-, pc, hc, hwithin⟩ := h.fits hpc
    refine .inr ?_
    have hclose : ∀ {event admission},
        Group.Step s.group.admission (.close c event) admission → CanStep s := by
      intro event admission hadmission
      exact ⟨_, _, rfl, .close hpc (.admission hadmission)⟩
    cases pc with
    | locking next =>
      rcases Nat.lt_or_eq_of_le hwithin with hnext | rfl
      · by_cases hfree : (s.group.admission.shards ⟨next, hnext⟩).admission = none
        · exact .inl (hclose (.barrier (k := ⟨next, hnext⟩) hc hfree))
        · exact .inr (.admission (k := ⟨next, hnext⟩) hpc hc hfree)
      · exact .inl (hclose (.closed hc))
    | unlocking k => exact .inl (hclose (.pass hc))
    | returned => exact .inl ⟨_, _, rfl, .closed hpc hc⟩
  | collecting =>
    obtain ⟨hsettled, -⟩ := h.fits hpc
    obtain ⟨f, outcome, -, hconclude, -⟩ := exists_conclude hsettled
    exact .inr (.inl ⟨_, _, rfl, .collect hpc hconclude⟩)
  | finished supervised => exact .inl ⟨supervised, rfl⟩
  | panicked panic => exact absurd (h.fits hpc) id

/-! ### What a run has done -/

/-- What the outcome of the group looks at in an exit. -/
def kind (exit : MemberExit D C W P) : Bool × Bool × Bool :=
  (isPanicked exit, isFailed exit, isTerminated exit)

/-- Two members that have been started and have not looked at anything yet. -/
def started : State ⟨2, U64.two_ne_zero⟩ ℕ ℕ Unit Unit Unit Unit Unit Unit :=
  ⟨GroupTermination.pair, .start, fun _ => .waiting, [], some, fun _ => none, .receiving 0⟩

end Supervisor

end Calandria
