/-
Fail-stop propagation in a reactor group.

`GroupControl::request_termination` closes the group's admission, publishes to
every member in turn, and only then runs the wakes.  It is called from outside
and by the worker of each member that failed or panicked.  The members run their
own loops meanwhile, and sends, receivers and the supervisor's close go on.

* `CallerPc` — where a call of `request_termination` is;
* `Step` — admission, the members and the callers, interleaved;
* `Inv` — a caller has published to every member before the next one;
* `GroupTermination.fail_stop` — what holds from the last publication on.
-/
import Calandria.Reactor
import Calandria.GroupAdmission

namespace Calandria

/-- Exact per-reactor results of one group termination request. -/
structure ReactorGroupTermination (E : Type) where
  reactors : List (ReactorTermination E)

namespace GroupTermination

open Calandria.Group (Position)
open Reactor (Member PublishedTermination)

-- `T`, `U` and `V`: the queued values, the owners of materialized sends, and the errors of
-- the mailbox wakes; `D`, `C` and `W`: the errors of a member's duty, clock and waiter;
-- `E`: the errors of the termination wakes
variable {reactors : NonZeroUsize} {T U V D C W E : Type}

/-- A worker asks for the termination of the group after such an exit. -/
def isFatal : Option (ReactorOutcome D C W) → Bool
  | none | some (.failed _) => true
  | some .stopped | some .terminated => false

/-- Who calls `request_termination`. -/
inductive Caller (reactors : NonZeroUsize)
  | worker (reactor : Position reactors)
  | external (call : ℕ)
  deriving DecidableEq

/-- Where a call of `request_termination` is. -/
inductive CallerPc (E : Type)
  /-- Runs `admission.close()`, as this closer. -/
  | closing (closer : ℕ)
  /-- Has published to the first members. -/
  | publishing (published : List PublishedTermination)
  /-- Has completed the first publications. -/
  | waking (published : List PublishedTermination) (completed : List (ReactorTermination E))
  | returned (termination : ReactorGroupTermination E)
  /-- A wake has panicked. -/
  | panicked

structure State (reactors : NonZeroUsize) (T U V D C W E : Type) where
  admission : Group.State reactors T U V
  members : Position reactors → Member D C W
  callers : Caller reactors → Option (CallerPc E)

inductive CallerEvent (reactors : NonZeroUsize) (E : Type)
  | close
  | closed
  | publish (reactor : Position reactors) (publication : PublishedTermination)
  | published
  | complete (termination : ReactorTermination E)
  | panic
  | returned

inductive Label (reactors : NonZeroUsize) (T U V D C W E : Type)
  | admission (label : Group.Label reactors T U V)
  | member (reactor : Position reactors) (event : Reactor.Event D C W)
  | caller (caller : Caller reactors) (event : CallerEvent reactors E)

namespace Label

/-- What the step begins in one member. -/
def cost (k : Position reactors) : Label reactors T U V D C W E → ℕ
  | .member k' event => if k' = k then event.cost else 0
  | _ => 0

def quiet : Label reactors T U V D C W E → Bool
  | .admission label => label.quiet
  | _ => true

end Label

namespace State

def setMember (s : State reactors T U V D C W E) (k : Position reactors) (member : Member D C W) :
    State reactors T U V D C W E :=
  { s with members := Function.update s.members k member }

def setCaller (s : State reactors T U V D C W E) (caller : Caller reactors) (pc : CallerPc E) :
    State reactors T U V D C W E :=
  { s with callers := Function.update s.callers caller (some pc) }

/-- A worker calls once its member is done, by a fatal exit; others call at will. -/
def mayCall (s : State reactors T U V D C W E) : Caller reactors → Prop
  | .worker k => ∃ outcome, (s.members k).pc = .dropped outcome ∧ isFatal outcome = true
  | .external _ => True

end State

/-- One step of admission, of a member or of a caller. -/
inductive Step (s : State reactors T U V D C W E) :
    Label reactors T U V D C W E → State reactors T U V D C W E → Prop
  | admission {label admission} : Group.Step s.admission label admission →
      Step s (.admission label) { s with admission }
  | member {k event member} : Member.Step (s.members k) event member →
      Step s (.member k event) (s.setMember k member)
  /-- The store that begins `admission.close()`; the locks follow as steps of admission. -/
  | close {i c admission} : s.callers i = none → s.mayCall i →
      Group.Step s.admission (.close c .store) admission →
      Step s (.caller i .close) ({ s with admission }.setCaller i (.closing c))
  | closed {i c} : s.callers i = some (.closing c) →
      s.admission.closers c = some .returned →
      Step s (.caller i .closed) (s.setCaller i (.publishing []))
  | publish {i published} {k : Position reactors} :
      s.callers i = some (.publishing published) → k.val = published.length →
      Step s (.caller i (.publish k (Reactor.publishTermination (s.members k).control).2))
        ((s.setMember k (s.members k).publish).setCaller i
          (.publishing (published ++ [(Reactor.publishTermination (s.members k).control).2])))
  /-- The publications are collected. -/
  | published {i published} : s.callers i = some (.publishing published) →
      published.length = reactors.get.val →
      Step s (.caller i .published) (s.setCaller i (.waking published []))
  | complete {i published completed publication} (woken : Except E Unit) :
      s.callers i = some (.waking published completed) →
      published[completed.length]? = some publication →
      Step s (.caller i (.complete (publication.complete woken)))
        (s.setCaller i (.waking published (completed ++ [publication.complete woken])))
  | panic {i published completed publication} :
      s.callers i = some (.waking published completed) →
      published[completed.length]? = some publication → publication.wake = true →
      Step s (.caller i .panic) (s.setCaller i .panicked)
  | returned {i published completed} :
      s.callers i = some (.waking published completed) →
      completed.length = published.length →
      Step s (.caller i .returned) (s.setCaller i (.returned ⟨completed⟩))

/-- A group whose members have been started. -/
def system (reactors : NonZeroUsize) (T U V D C W E : Type) :
    TransitionSystem (State reactors T U V D C W E) (Label reactors T U V D C W E) where
  init s := (Group.system reactors T U V).init s.admission ∧
    (∀ k, ∃ host, s.members k = .new host) ∧ ∀ caller, s.callers caller = none
  step := Step

/-! ### The invariant -/

/-- How many members, from the first, a caller has published to. -/
def CallerPc.reached (reactors : NonZeroUsize) : CallerPc E → ℕ
  | .closing _ => 0
  | .publishing published => published.length
  | .waking _ _ | .returned _ | .panicked => reactors.get.val

/-- The caller has published its group termination. -/
def CallerPc.announced (reactors : NonZeroUsize) (pc : CallerPc E) : Prop :=
  pc.reached reactors = reactors.get.val

def CallerPc.isClosing : CallerPc E → Bool
  | .closing _ => true
  | _ => false

/-- A caller that publishes has closed the group before, and has published to the
members in turn. -/
structure Inv (s : State reactors T U V D C W E) : Prop where
  admission : Group.Inv s.admission
  tracked : ∀ k, (s.members k).Tracked
  fenced : ∀ {caller pc}, s.callers caller = some pc → pc.isClosing = false →
    ∃ c, s.admission.closers c = some .returned
  reached : ∀ {caller pc}, s.callers caller = some pc → ∀ k : Position reactors,
    k.val < pc.reached reactors → (s.members k).control ≠ .running

variable {s s' : State reactors T U V D C W E} {l : Label reactors T U V D C W E}

/-- What a step does to one member: the member steps, is published to, or stays
as it is. -/
theorem Step.member_cases (hstep : Step s l s') (k : Position reactors) :
    (∃ event, l = .member k event ∧ Member.Step (s.members k) event (s'.members k)) ∨
    (l.cost k = 0 ∧
      (s'.members k = s.members k ∨ s'.members k = (s.members k).publish)) := by
  cases hstep with
  | @member k' event member hm =>
    by_cases hk : k' = k
    · subst hk
      refine .inl ⟨event, rfl, ?_⟩
      show Member.Step _ event (Function.update s.members k' member k')
      rwa [Function.update_self]
    · exact .inr ⟨if_neg hk, .inl (Function.update_of_ne (Ne.symm hk) ..)⟩
  | @publish _ _ k' =>
    refine .inr ⟨rfl, ?_⟩
    by_cases hk : k = k'
    · subst hk
      exact .inr (Function.update_self ..)
    · exact .inl (Function.update_of_ne hk ..)
  | _ => exact .inr ⟨rfl, .inl rfl⟩

theorem Step.tracked (hstep : Step s l s') (h : ∀ k, (s.members k).Tracked)
    (k : Position reactors) : (s'.members k).Tracked := by
  rcases hstep.member_cases k with ⟨event, -, hm⟩ | ⟨-, hsame | hpublish⟩
  · exact (h k).next hm
  · rw [hsame]
    exact h k
  · rw [hpublish]
    exact (h k).publish

/-- What is published stays published. -/
theorem Step.published_control (hstep : Step s l s') {k : Position reactors}
    (hpublished : (s.members k).control ≠ .running) : (s'.members k).control ≠ .running := by
  rcases hstep.member_cases k with ⟨event, -, hm⟩ | ⟨-, hsame | hpublish⟩
  · rcases hm.control with hsame | hexited
    · rwa [hsame]
    · rw [hexited]
      exact nofun
  · rwa [hsame]
  · rw [hpublish]
    exact Reactor.publishTermination_ne_running _

theorem Step.admission_cases (hstep : Step s l s') :
    s'.admission = s.admission ∨ ∃ label, Group.Step s.admission label s'.admission := by
  cases hstep with
  | admission hstep => exact .inr ⟨_, hstep⟩
  | close _ _ hstep => exact .inr ⟨_, hstep⟩
  | _ => exact .inl rfl

theorem Step.stays_returned (hstep : Step s l s') {c : ℕ}
    (hc : s.admission.closers c = some .returned) : s'.admission.closers c = some .returned := by
  rcases hstep.admission_cases with hsame | ⟨label, hadmission⟩
  · rwa [hsame]
  · exact hadmission.stays_returned hc

/-- What is known of a caller after its step. -/
structure Reached (s : State reactors T U V D C W E) (pc : CallerPc E) : Prop where
  fenced : pc.isClosing = false → ∃ c, s.admission.closers c = some .returned
  reached : ∀ k : Position reactors, k.val < pc.reached reactors →
    (s.members k).control ≠ .running

theorem Inv.of_caller (h : Inv s) {caller : Caller reactors} {pc : CallerPc E}
    (hpc : s.callers caller = some pc) : Reached s pc :=
  ⟨h.fenced hpc, h.reached hpc⟩

theorem Reached.next {pc : CallerPc E} (h : Reached s pc) (hstep : Step s l s') : Reached s' pc := by
  refine ⟨fun hclosing => ?_, fun k hk => hstep.published_control (h.reached k hk)⟩
  obtain ⟨c, hc⟩ := h.fenced hclosing
  exact ⟨c, hstep.stays_returned hc⟩

/-- A step moves at most one caller, and takes it where it has reached. -/
theorem Inv.callers_cases (h : Inv s) (hstep : Step s l s') :
    s'.callers = s.callers ∨ ∃ caller pc,
      s'.callers = Function.update s.callers caller (some pc) ∧ Reached s' pc := by
  have hstep' := hstep
  cases hstep with
  | admission | member => exact .inl rfl
  | close => exact .inr ⟨_, _, rfl, nofun, fun k hk => absurd hk (Nat.not_lt_zero _)⟩
  | closed _ hreturned =>
    exact .inr ⟨_, _, rfl, fun _ => ⟨_, hreturned⟩, fun k hk => absurd hk (Nat.not_lt_zero _)⟩
  | @publish caller published k hpc hk =>
    obtain ⟨hfenced, hreached⟩ := (h.of_caller hpc).next hstep'
    refine .inr ⟨_, _, rfl, fun _ => hfenced rfl, fun k' hk' => ?_⟩
    rcases Nat.lt_succ_iff_lt_or_eq.mp (by simpa [CallerPc.reached] using hk') with hlt | heq
    · exact hreached k' hlt
    · obtain rfl : k' = k := Fin.ext (heq.trans hk.symm)
      show (Function.update s.members k' _ k').control ≠ _
      rw [Function.update_self]
      exact Reactor.publishTermination_ne_running _
  | @published caller published hpc hlength =>
    obtain ⟨hfenced, hreached⟩ := (h.of_caller hpc).next hstep'
    exact .inr ⟨_, _, rfl, fun _ => hfenced rfl,
      fun k _ => hreached k (lt_of_lt_of_eq k.isLt hlength.symm)⟩
  | complete _ hpc | panic hpc | returned hpc =>
    obtain ⟨hfenced, hreached⟩ := (h.of_caller hpc).next hstep'
    exact .inr ⟨_, _, rfl, fun _ => hfenced rfl, hreached⟩

theorem Inv.next (h : Inv s) (hstep : Step s l s') : Inv s' := by
  have hcaller : ∀ {caller pc}, s'.callers caller = some pc → Reached s' pc := by
    intro caller pc hpc
    rcases h.callers_cases hstep with hsame | ⟨moved, pc', hmoved, hreached⟩
    · rw [hsame] at hpc
      exact (h.of_caller hpc).next hstep
    · rw [hmoved] at hpc
      rcases update_eq_some.mp hpc with ⟨-, hpc'⟩ | ⟨-, hold⟩
      · cases hpc'
        exact hreached
      · exact (h.of_caller hold).next hstep
  refine ⟨?_, hstep.tracked h.tracked, fun hpc => (hcaller hpc).fenced,
    fun hpc => (hcaller hpc).reached⟩
  rcases hstep.admission_cases with hsame | ⟨label, hadmission⟩
  · rw [hsame]
    exact h.admission
  · exact h.admission.next hadmission

theorem reachable_inv (h : (system reactors T U V D C W E).Reachable s) : Inv s := by
  refine h.invariant (fun {s} hinit => ?_) Inv.next
  obtain ⟨hadmission, hmembers, hcallers⟩ := hinit
  refine ⟨Group.initial_inv hadmission, fun k => ?_, fun {caller pc} hpc => ?_,
    fun {caller pc} hpc => ?_⟩
  · obtain ⟨host, hnew⟩ := hmembers k
    rw [hnew]
    exact Member.new_tracked host
  · rw [hcallers] at hpc
    cases hpc
  · rw [hcallers] at hpc
    cases hpc

/-! ### From the last publication on -/

/-- The group is fenced, and every member has been asked to terminate. -/
structure FailStopped (s : State reactors T U V D C W E) : Prop where
  inv : Inv s
  fenced : ∃ c, s.admission.closers c = some .returned
  published : ∀ k, (s.members k).control ≠ .running

theorem FailStopped.next (h : FailStopped s) (hstep : Step s l s') : FailStopped s' := by
  obtain ⟨c, hc⟩ := h.fenced
  exact ⟨h.inv.next hstep, ⟨c, hstep.stays_returned hc⟩,
    fun k => hstep.published_control (h.published k)⟩

theorem FailStopped.isOpen (h : FailStopped s) : s.admission.isOpen = false := by
  obtain ⟨c, hc⟩ := h.fenced
  exact h.inv.admission.closed hc

theorem FailStopped.quiet (h : FailStopped s) (hstep : Step s l s') : l.quiet = true := by
  obtain ⟨c, hc⟩ := h.fenced
  cases hstep with
  | admission hstep => exact h.inv.admission.quiet hstep hc
  | _ => rfl

theorem FailStopped.control (h : FailStopped s) (k : Position reactors) :
    (s.members k).control = .terminationRequested ∨ (s.members k).control = .exited := by
  cases hcontrol : (s.members k).control with
  | running => exact absurd hcontrol (h.published k)
  | terminationRequested => exact .inl rfl
  | exited => exact .inr rfl

/-- Nobody exits `Stopped` any more. -/
theorem FailStopped.outcome (h : FailStopped s) (hstep : Step s l s') {k : Position reactors}
    (hstopped : (s'.members k).pc.outcome = some .stopped) :
    (s.members k).pc.outcome = some .stopped := by
  rcases hstep.member_cases k with ⟨event, -, hm⟩ | ⟨-, hsame | hpublish⟩
  · cases hm.concludes (h.inv.tracked k) with
    | same hsame => rwa [← hsame]
    | stopped hrunning => exact absurd hrunning (h.published k)
    | terminated _ hterminated => exact absurd (hstopped.symm.trans hterminated) nofun
    | failed hfailed => exact absurd (hstopped.symm.trans hfailed) nofun
  · rwa [hsame] at hstopped
  · -- a publication leaves the member where it is
    rwa [hpublish] at hstopped

/-- A member spends its allowance on what it begins. -/
theorem FailStopped.spends (h : FailStopped s) (hstep : Step s l s') (k : Position reactors) :
    l.cost k + (s'.members k).pc.allowance ≤ (s.members k).pc.allowance := by
  rcases hstep.member_cases k with ⟨event, rfl, hm⟩ | ⟨hcost, hsame | hpublish⟩
  · rw [Label.cost, if_pos rfl]
    exact hm.spends (h.inv.tracked k) (h.published k)
  · rw [hcost, hsame, Nat.zero_add]
  · rw [hcost, hpublish, Nat.zero_add]
    exact Nat.le_refl _

/-- **Fail-stop.**  Once a caller, be it the worker of a fatal member or an
external one, has published its group termination, the group's admission is
closed and every member has been asked to terminate or has exited.  From then on,
whatever the wakes do, this stays so, sends publish and call nothing, no member
exits `Stopped`, and each begins at most one more bounded operation. -/
theorem fail_stop (h : (system reactors T U V D C W E).Reachable s) {caller : Caller reactors}
    {pc : CallerPc E} (hpc : s.callers caller = some pc) (hannounced : pc.announced reactors) :
    s.admission.isOpen = false ∧
    (∀ k, (s.members k).control = .terminationRequested ∨ (s.members k).control = .exited) ∧
    ∀ tr s', Steps Step s tr s' →
      s'.admission.isOpen = false ∧
      (∀ k, (s'.members k).control = .terminationRequested ∨ (s'.members k).control = .exited) ∧
      (∀ l ∈ tr, l.quiet = true) ∧
      (∀ k, (s'.members k).pc.outcome = some .stopped →
        (s.members k).pc.outcome = some .stopped) ∧
      ∀ k, (tr.map (Label.cost k)).sum ≤ 1 := by
  have hinv := reachable_inv h
  -- what is announced has passed every reactor
  have hstopped : FailStopped s := by
    refine ⟨hinv, hinv.fenced hpc ?_,
      fun k => hinv.reached hpc k (lt_of_lt_of_eq k.isLt hannounced.symm)⟩
    cases pc with
    | closing closer => exact absurd hannounced.symm (fun hzero => reactors.ne_zero (Fin.ext hzero))
    | _ => rfl
  refine ⟨hstopped.isOpen, hstopped.control, fun tr s' hrun => ?_⟩
  obtain ⟨hstopped', hquiet, houtcome⟩ := hrun.invariant (I := fun tr u => FailStopped u ∧
    (∀ l ∈ tr, l.quiet = true) ∧ ∀ k, (u.members k).pc.outcome = some .stopped →
      (s.members k).pc.outcome = some .stopped) ⟨hstopped, nofun, fun _ => id⟩ (by
    rintro tr u l v - ⟨hu, hquiet, houtcome⟩ hstep
    refine ⟨hu.next hstep, fun l' hl' => ?_, fun k hk => houtcome k (hu.outcome hstep hk)⟩
    rcases List.mem_append.mp hl' with hmem | hmem
    · exact hquiet l' hmem
    · rw [List.mem_singleton.mp hmem]
      exact hu.quiet hstep)
  refine ⟨hstopped'.isOpen, hstopped'.control, hquiet, houtcome, fun k => ?_⟩
  have hspent := hrun.spent (Label.cost k) (fun u => (u.members k).pc.allowance)
    (fun hu hstep => ⟨FailStopped.next hu hstep, hu.spends hstep k⟩) hstopped
  have := (s.members k).pc.allowance_le_one
  omega

/-- Two members that have not looked at anything yet. -/
def pair : State ⟨2, U64.two_ne_zero⟩ ℕ ℕ Unit Unit Unit Unit Unit :=
  ⟨⟨true, fun _ => ⟨none, none, .new Mailbox.smallLimits fun _ => 0⟩, fun _ => none, fun _ => none⟩,
    fun _ => .new (.new .default), fun _ => none⟩

theorem pair_init : (system ⟨2, by decide⟩ ℕ ℕ Unit Unit Unit Unit Unit).init pair :=
  ⟨⟨rfl, fun _ => rfl, fun _ => rfl, fun _ => ⟨rfl, rfl, _, _, _, .start rfl⟩⟩,
    fun _ => ⟨_, rfl⟩, fun _ => rfl⟩

def first : Position ⟨2, U64.two_ne_zero⟩ := ⟨0, Nat.two_pos⟩

def second : Position ⟨2, U64.two_ne_zero⟩ := ⟨1, Nat.one_lt_two⟩

/-- The first member's duty fails; its worker closes the group and publishes, and
the second member terminates although its wake panics. -/
theorem fail_stop_panicking_wake :
    ∃ s s', (system ⟨2, by decide⟩ ℕ ℕ Unit Unit Unit Unit Unit).Reachable s ∧
      Steps Step s [.caller (.worker first) .published,
        .caller (.worker first) (.complete ⟨.exited, none⟩), .caller (.worker first) .panic,
        .member second (.check true), .member second .finish] s' ∧
      s'.admission.isOpen = false ∧ (s'.members second).pc.outcome = some .terminated := by
  have hobserved : (EmbeddedHost.new .default).start (D := Unit) (C := Unit) (.ok 5)
      = (⟨.default, ⟨.running, 0, 0, some 5, none, none⟩⟩, .ok 5) := rfl
  have hturned : ∀ host : EmbeddedHost, host.turned (D := Unit) (C := Unit) (.error ())
      = (host.fail, .error (.duty ())) := fun _ => rfl
  have hrest : ∀ {s}, (system ⟨2, by decide⟩ ℕ ℕ Unit Unit Unit Unit Unit).Reachable s →
      Steps Step s [] s := fun _ => .refl
  -- the first member's duty fails, and its thread drops the control
  have hcheck := (TransitionSystem.Run.start pair_init).reachable.next
    (.member (k := first) (.check rfl))
  have hstart := hcheck.next (.member (k := first) (.start rfl hobserved))
  have hturn := (hstart.next (.member (k := first) (.beginTurn rfl))).next
    (.member (k := first) (.turnFails rfl (hturned _)))
  have hfailed := (hturn.next (.member (k := first) (.fail rfl))).next
    (.member (k := first) (.drop rfl))
  -- its worker closes admission and publishes to both
  have hclose := hfailed.next (.close (i := .worker first) rfl ⟨_, rfl, rfl⟩ (.store (c := 0) rfl))
  have hfirst := (hclose.next (.admission (.barrier (c := 0) (k := first) rfl rfl))).next
    (.admission (.pass (c := 0) (k := first) rfl))
  have hsecond := (hfirst.next (.admission (.barrier (c := 0) (k := second) rfl rfl))).next
    (.admission (.pass (c := 0) (k := second) rfl))
  have hclosed := (hsecond.next (.admission (.closed (c := 0) rfl))).next
    (.closed (i := .worker first) rfl rfl)
  have hannounced := (hclosed.next (.publish (i := .worker first) (k := first) rfl rfl)).next
    (.publish (i := .worker first) (k := second) rfl rfl)
  have hwoken := (((hrest hannounced).snoc (.published (i := .worker first) rfl rfl)).snoc
    (.complete (i := .worker first) (.error ()) rfl rfl)).snoc
    (.panic (i := .worker first) rfl rfl rfl)
  have hrun := (hwoken.snoc (.member (k := second) (.check rfl))).snoc
    (.member (k := second) (.terminate rfl))
  have hstopped := (fail_stop hannounced (Function.update_self ..) rfl).2.2 _ _ hrun
  exact ⟨_, _, hannounced, hrun, hstopped.1, rfl⟩

end GroupTermination

end Calandria
