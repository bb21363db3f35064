/-
What a reactor reports at its end.

The run loop counts its waits, and its host counts turns and adds up their work.  Both
accounts are folds over what happened: the waits that have returned, and the turns that
have, but for one whose closing look at the clock is still to come, was refused or unwound.

* `ReactorSnapshot.foldl_record`, `HostAccount.foldl_charge` — the accounts of a history;
* `run_stops` — after a turn that asks to stop nothing begins;
* `Missing`, `Accepted` — which turns of a history are recorded, and which one may be missing;
* `Member.Report.next`, `run_report` — one step, and a run;
* `reactor_report` — the report of every run, whatever is requested meanwhile.
-/
import Calandria.HostLifecycle
import Calandria.Reactor

namespace Calandria

/-! ### Accounts of a history -/

theorem ReactorSnapshot.record_val (snapshot : ReactorSnapshot) (outcome : WaitOutcome) :
    (snapshot.record outcome).waits.val = min (snapshot.waits.val + 1) (2 ^ 64 - 1) ∧
    (snapshot.record outcome).notifications.val
      = min (snapshot.notifications.val + [outcome].count .notified) (2 ^ 64 - 1) ∧
    (snapshot.record outcome).idleReturns.val
      = min (snapshot.idleReturns.val + [outcome].count .idle) (2 ^ 64 - 1) := by
  have hnotifications := snapshot.notifications.isLt
  have hidle := snapshot.idleReturns.isLt
  cases outcome with
  | notified =>
    refine ⟨U64.saturatingAdd_val .., U64.saturatingAdd_val .., ?_⟩
    show snapshot.idleReturns.val = min (_ + 0) _
    omega
  | idle =>
    refine ⟨U64.saturatingAdd_val .., ?_, U64.saturatingAdd_val ..⟩
    show snapshot.notifications.val = min (_ + 0) _
    omega

theorem ReactorSnapshot.foldl_record (outcomes : List WaitOutcome) (snapshot : ReactorSnapshot) :
    let last := outcomes.foldl ReactorSnapshot.record snapshot
    last.waits.val = min (snapshot.waits.val + outcomes.length) (2 ^ 64 - 1) ∧
    last.notifications.val
      = min (snapshot.notifications.val + outcomes.count .notified) (2 ^ 64 - 1) ∧
    last.idleReturns.val = min (snapshot.idleReturns.val + outcomes.count .idle) (2 ^ 64 - 1) := by
  induction outcomes generalizing snapshot with
  | nil =>
    have hwaits := snapshot.waits.isLt
    have hnotifications := snapshot.notifications.isLt
    have hidle := snapshot.idleReturns.isLt
    simp only [List.foldl_nil, List.length_nil, List.count_nil]
    omega
  | cons outcome rest ih =>
    obtain ⟨hwaits, hnotifications, hidle⟩ := ih (snapshot.record outcome)
    obtain ⟨hwaits', hnotifications', hidle'⟩ := snapshot.record_val outcome
    rw [← List.singleton_append, List.count_append, List.count_append, List.length_append,
      List.length_singleton]
    simp only [List.foldl_append, List.foldl_cons, List.foldl_nil]
    omega

/-- What the host counts. -/
structure HostAccount where
  turns : U64
  work : WorkCount
  lastTurn : Option Turn

namespace HostAccount

def charge (account : HostAccount) (turn : Turn) : HostAccount :=
  ⟨account.turns.saturatingAdd 1, account.work.saturatingAdd turn.work, some turn⟩

theorem foldl_charge (turns : List Turn) (account : HostAccount) :
    let last := turns.foldl charge account
    last.turns.val = min (account.turns.val + turns.length) (2 ^ 64 - 1) ∧
    last.work.val
      = min (account.work.val + (turns.map fun turn => turn.work.val).sum) (2 ^ 64 - 1) ∧
    last.lastTurn = turns.getLast?.or account.lastTurn := by
  induction turns using List.reverseRecOn with
  | nil =>
    have hturns := account.turns.isLt
    have hwork := account.work.isLt
    refine ⟨?_, ?_, rfl⟩
    · show _ = min (_ + 0) _
      simp only [List.foldl_nil]
      omega
    · show _ = min (_ + 0) _
      simp only [List.foldl_nil]
      omega
  | append_singleton turns turn ih =>
    obtain ⟨hturns, hwork, -⟩ := ih
    simp only [List.foldl_append, List.foldl_cons, List.foldl_nil, charge, U64.saturatingAdd_val,
      hturns, hwork, List.length_append, List.length_singleton, List.map_append, List.sum_append,
      List.map_singleton, List.sum_singleton, List.getLast?_append, List.getLast?_singleton]
    refine ⟨?_, ?_, rfl⟩
    · have hone : (1 : U64).val = 1 := rfl
      omega
    · omega

end HostAccount

def EmbeddedHost.account (host : EmbeddedHost) : HostAccount :=
  ⟨host.snapshot.turns, host.snapshot.work, host.snapshot.lastTurn⟩

/-- A first look at the clock charges nothing, and is the latest one. -/
theorem EmbeddedHost.start_cases {D C : Type} {host host' : EmbeddedHost}
    {observed : Except C Moment} {result : Except (HostError D C) Moment}
    (h : host.start observed = (host', result)) : host'.account = host.account ∧
      ∀ startedAt, result = .ok startedAt → host'.snapshot.lastMoment = some startedAt := by
  rw [start] at h
  split_ifs at h
  · cases h
    refine ⟨rfl, fun startedAt heq => ?_⟩
    cases heq
  · rcases host.observeNow_cases (D := D) observed with
      ⟨error, -, hobserve⟩ | ⟨moment, -, -, hobserve⟩
    all_goals
      rw [hobserve] at h
      cases h
      refine ⟨rfl, fun startedAt heq => ?_⟩
      cases heq
    rfl

namespace Reactor

variable {D C W E : Type}

/-! ### What happened -/

/-- What the owner did. -/
def Label.owned : Label D C W E → List (Event D C W)
  | .owner event => [event]
  | .request _ _ => []

/-- What a wait that has returned saw. -/
def Event.waited : Event D C W → List WaitOutcome
  | .endWait (.ok outcome) => [outcome]
  | _ => []

/-- The turn that the duty has returned. -/
def Event.returned : Event D C W → List Turn
  | .endTurn (.ok turn) => [turn]
  | _ => []

/-- The look at the clock after a turn is refused, because the clock fails or has gone back
since the turn started, or it unwinds. -/
def Event.refused (startedAt : Moment) : Event D C W → Prop
  | .complete (.ok completedAt) => completedAt < startedAt
  | .complete (.error _) | .panic => True
  | _ => False

namespace OwnerPc

/-- When the turn under way has started. -/
def startedAt : OwnerPc D C W → Option Moment
  | .turning startedAt | .inTurn startedAt | .completing startedAt _ => some startedAt
  | _ => none

/-- The loop has failed or unwound. -/
def broken : OwnerPc D C W → Bool
  | .failing _ | .exited (.failed _) | .unwinding | .dropped none
  | .dropped (some (.failed _)) => true
  | _ => false

/-- The loop begins nothing any more. -/
def ends : OwnerPc D C W → Bool
  | .completing _ turn => turn.next = .stop
  | .stopping | .failing _ | .exited _ | .unwinding | .dropped _ => true
  | _ => false

theorem never_of_broken {pc : OwnerPc D C W} (h : pc.broken = true) :
    (∀ startedAt, pc.startedAt ≠ some startedAt) ∧
      ¬(pc = .stopping ∨ pc.outcome = some .stopped) := by
  refine ⟨?_, ?_⟩
  · cases pc with
    | turning | inTurn | completing => cases h
    | _ => exact nofun
  · rintro (rfl | houtcome)
    · cases h
    · cases pc with
      | exited | dropped =>
        cases houtcome
        cases h
      | _ => cases houtcome

theorem startedAt_select (action : HostAction) :
    (select action : OwnerPc D C W).startedAt = none := by
  cases action <;> rfl

/-- Only one action leads to the stop. -/
theorem eq_stop_of_select {action : HostAction}
    (h : select action = (.stopping : OwnerPc D C W) ∨
      (select action : OwnerPc D C W).outcome = some .stopped) : action = .stop := by
  cases action with
  | stop => rfl
  | «continue» | wait => simp [select, outcome] at h

end OwnerPc

/-! ### What comes after a turn that stops -/

/-- It is the end. -/
theorem Member.Step.ends {m m' : Member D C W} {event : Event D C W}
    (hstep : Member.Step m event m') (h : m.pc.ends = true) :
    (event.begins = false ∧ event.returned = []) ∧ m'.pc.ends = true := by
  cases hstep with
  | check hpc | recheck hpc | terminate hpc | start hpc | startFails hpc | beginTurn hpc
  | endTurn hpc | turnFails hpc | beginWait hpc | endWait hpc | waitFails hpc =>
    rw [hpc] at h
    cases h
  | @complete startedAt turn observed host step hpc hcomplete =>
    rw [hpc] at h
    refine ⟨⟨rfl, rfl⟩, ?_⟩
    rcases m.host.complete_cases (D := D) startedAt turn observed with
      ⟨error, -, hcomplete'⟩ | ⟨moment, -, -, hcomplete'⟩
    · rw [hcomplete'] at hcomplete
      cases hcomplete
    · rw [hcomplete'] at hcomplete
      cases hcomplete
      show (OwnerPc.select (HostAction.forTurn turn moment m.host.config)).ends = true
      rw [HostAction.forTurn_eq_stop.mpr (of_decide_eq_true h)]
      rfl
  | completeFails | stop | fail | panic | drop | dropUnwound => exact ⟨⟨rfl, rfl⟩, rfl⟩

theorem run_ends {s s' : State D C W E} {tr : List (Label D C W E)}
    (hrun : Steps Step s tr s') (h : s.member.pc.ends = true) :
    ∀ event ∈ tr.flatMap Label.owned, event.begins = false ∧ event.returned = [] := by
  refine (hrun.invariant (I := fun tr (s : State D C W E) => s.member.pc.ends = true ∧
    ∀ event ∈ tr.flatMap Label.owned, event.begins = false ∧ event.returned = []) ?_ ?_).2
  · exact ⟨h, fun event hmem => absurd hmem List.not_mem_nil⟩
  rintro tr u l v - ⟨hends, hquiet⟩ hstep
  rw [List.flatMap_append, List.flatMap_singleton]
  cases hstep with
  | owner hstep =>
    obtain ⟨hevent, hends'⟩ := hstep.ends hends
    refine ⟨hends', fun event hmem => ?_⟩
    rcases List.mem_append.mp hmem with hmem | hmem
    · exact hquiet event hmem
    · rw [List.mem_singleton.mp hmem]
      exact hevent
  | publish | complete | panic =>
    refine ⟨hends, fun event hmem => hquiet event ?_⟩
    rwa [show Label.owned _ = [] from rfl, List.append_nil] at hmem

/-- A turn that stops is the last thing that the loop begins. -/
theorem run_stops {s s' : State D C W E} {before after : List (Label D C W E)} {turn : Turn}
    (hrun : Steps Step s (before ++ .owner (.endTurn (.ok turn)) :: after) s')
    (hstop : turn.next = .stop) :
    ∀ event ∈ after.flatMap Label.owned, event.begins = false ∧ event.returned = [] := by
  rw [List.append_cons] at hrun
  obtain ⟨v, hbefore, hafter⟩ := hrun.split
  obtain ⟨u, -, hstep⟩ := hbefore.of_snoc
  refine run_ends hafter ?_
  cases hstep with
  | owner hstep =>
    cases hstep with
    | endTurn hpc hturned =>
      cases hturned
      exact decide_eq_true hstop
    | turnFails hpc hturned => cases hturned

/-! ### Which turns are recorded -/

/-- The turn that has returned last may be missing from the account. -/
inductive Missing (events : List (Event D C W)) (pc : OwnerPc D C W) (recorded : List Turn) :
    List Turn → Prop
  | none : Missing events pc recorded []
  /-- The look at the clock is still to come. -/
  | pending {before startedAt turn} : pc = .completing startedAt turn →
      events = before ++ [.beginTurn startedAt, .endTurn (.ok turn)] →
      recorded = before.flatMap Event.returned → Missing events pc recorded [turn]
  /-- It was refused or unwound. -/
  | refused {before startedAt turn look after} : pc.broken = true →
      events = before ++ .beginTurn startedAt :: .endTurn (.ok turn) :: look :: after →
      recorded = before.flatMap Event.returned → look.refused startedAt →
      Missing events pc recorded [turn]

/-- A turn is recorded, after those before it, once the look at the clock has been accepted. -/
def Accepted (events : List (Event D C W)) (recorded : List Turn) : Prop :=
  ∀ before startedAt turn completedAt after,
    events = before ++ .beginTurn startedAt :: .endTurn (.ok turn) ::
      .complete (.ok completedAt) :: after →
    startedAt ≤ completedAt → before.flatMap Event.returned ++ [turn] <+: recorded

/-- The turns that have returned are recorded, but for one at most. -/
structure Member.Report (start : HostAccount) (events : List (Event D C W)) (m : Member D C W)
    (recorded lost : List Turn) : Prop where
  turns : events.flatMap Event.returned = recorded ++ lost
  account : m.host.account = recorded.foldl HostAccount.charge start
  missing : Missing events m.pc recorded lost
  accepted : Accepted events recorded
  started : ∀ startedAt, m.pc.startedAt = some startedAt →
    m.host.snapshot.lastMoment = some startedAt
  turning : ∀ startedAt, m.pc = .inTurn startedAt →
    ∃ before, events = before ++ [.beginTurn startedAt]
  completing : ∀ startedAt turn, m.pc = .completing startedAt turn → lost ≠ []
  stopped : m.pc = .stopping ∨ m.pc.outcome = some .stopped →
    ∃ turn ∈ recorded.getLast?, turn.next = .stop

section

variable {start : HostAccount} {events : List (Event D C W)} {m m' : Member D C W}
  {event : Event D C W} {recorded lost : List Turn}

theorem Missing.eq_nil (h : Missing events m.pc recorded lost) (hbroken : m.pc.broken = false)
    (hcompleting : ∀ startedAt turn, m.pc ≠ .completing startedAt turn) : lost = [] := by
  cases h with
  | none => rfl
  | pending hpc => exact absurd hpc (hcompleting _ _)
  | refused hpc =>
    rw [hbroken] at hpc
    cases hpc

/-- Once it is missing for good, it stays so. -/
theorem Missing.snoc (h : Missing events m.pc recorded lost)
    (hbroken : m.pc.broken = true → m'.pc.broken = true)
    (hcompleting : ∀ startedAt turn, m.pc ≠ .completing startedAt turn) :
    Missing (events ++ [event]) m'.pc recorded lost := by
  cases h with
  | none => exact .none
  | pending hpc => exact absurd hpc (hcompleting _ _)
  | @refused before startedAt turn look after hpc hevents hrecorded hrefused =>
    have hlonger : events ++ [event]
        = before ++ .beginTurn startedAt :: .endTurn (.ok turn) :: look :: (after ++ [event]) := by
      rw [hevents, List.append_assoc]
      rfl
    exact .refused (hbroken hpc) hlonger hrecorded hrefused

/-- The pending turn, with its position. -/
theorem Member.Report.pending (h : m.Report start events recorded lost) {startedAt : Moment}
    {turn : Turn} (hpc : m.pc = .completing startedAt turn) :
    ∃ before, events = before ++ [.beginTurn startedAt, .endTurn (.ok turn)] ∧
      recorded = before.flatMap Event.returned ∧ lost = [turn] := by
  cases h.missing with
  | none => exact absurd rfl (h.completing _ _ hpc)
  | pending hpc' hevents hrecorded =>
    rw [hpc] at hpc'
    cases hpc'
    exact ⟨_, hevents, hrecorded, rfl⟩
  | refused hbroken =>
    rw [hpc] at hbroken
    cases hbroken

/-- The look in question is an old one, or it has just been accepted. -/
theorem Accepted.snoc (h : Accepted events recorded) {recorded' : List Turn}
    (hkept : recorded <+: recorded')
    (hnew : ∀ before startedAt turn completedAt,
      events = before ++ [.beginTurn startedAt, .endTurn (.ok turn)] →
      event = .complete (.ok completedAt) → startedAt ≤ completedAt →
      before.flatMap Event.returned ++ [turn] <+: recorded') :
    Accepted (events ++ [event]) recorded' := by
  intro before startedAt turn completedAt after hevents hle
  rw [show before ++ .beginTurn startedAt :: .endTurn (.ok turn) ::
    .complete (.ok completedAt) :: after = (before ++ [.beginTurn startedAt, .endTurn (.ok turn)])
      ++ .complete (.ok completedAt) :: after by rw [List.append_assoc]; rfl] at hevents
  obtain ⟨-, hbefore, hevent⟩ | ⟨middle, -, hmiddle⟩ := snoc_eq_append_cons hevents
  · exact hnew before startedAt turn completedAt hbefore.symm hevent.symm hle
  · refine (h before startedAt turn completedAt middle ?_ hle).trans hkept
    rw [hmiddle, List.append_assoc]
    rfl

/-- A step that has nothing to do with a turn's return or record. -/
theorem Member.Report.move (h : m.Report start events recorded lost)
    (haccount : m'.host.account = m.host.account) (hreturned : event.returned = [])
    (hlook : ∀ completedAt, event ≠ .complete (.ok completedAt))
    (hbroken : m.pc.broken = true → m'.pc.broken = true)
    (hbefore : ∀ startedAt turn, m.pc ≠ .completing startedAt turn)
    (hafter : ∀ startedAt turn, m'.pc ≠ .completing startedAt turn)
    (hstarted : ∀ startedAt, m'.pc.startedAt = some startedAt →
      m'.host.snapshot.lastMoment = some startedAt)
    (hturning : ∀ startedAt, m'.pc = .inTurn startedAt → event = .beginTurn startedAt)
    (hstopped : m'.pc = .stopping ∨ m'.pc.outcome = some .stopped →
      m.pc = .stopping ∨ m.pc.outcome = some .stopped) :
    m'.Report start (events ++ [event]) recorded lost where
  turns := by
    rw [List.flatMap_append, List.flatMap_singleton, hreturned, List.append_nil]
    exact h.turns
  account := haccount.trans h.account
  missing := h.missing.snoc hbroken hbefore
  accepted := h.accepted.snoc List.prefix_rfl fun _ _ _ _ _ heq => absurd heq (hlook _)
  started := hstarted
  turning startedAt hpc := ⟨events, by rw [hturning startedAt hpc]⟩
  completing startedAt turn hpc := absurd hpc (hafter startedAt turn)
  stopped hpc := h.stopped (hstopped hpc)

/-- A step to a place with no turn under way. -/
theorem Member.Report.pass (h : m.Report start events recorded lost)
    (haccount : m'.host.account = m.host.account) (hreturned : event.returned = [])
    (hlook : ∀ completedAt, event ≠ .complete (.ok completedAt))
    (hbroken : m.pc.broken = true → m'.pc.broken = true)
    (hbefore : ∀ startedAt turn, m.pc ≠ .completing startedAt turn)
    (hnone : m'.pc.startedAt = none)
    (hstopped : m'.pc = .stopping ∨ m'.pc.outcome = some .stopped →
      m.pc = .stopping ∨ m.pc.outcome = some .stopped) :
    m'.Report start (events ++ [event]) recorded lost := by
  refine h.move haccount hreturned hlook hbroken hbefore (fun startedAt turn hpc => ?_)
    (fun startedAt hpc => ?_) (fun startedAt hpc => ?_) hstopped
  · rw [hpc] at hnone
    cases hnone
  · rw [hnone] at hpc
    cases hpc
  · rw [hpc] at hnone
    cases hnone

/-- The look at the clock after the turn is refused or unwinds. -/
theorem Member.Report.refuse (h : m.Report start events recorded lost) {startedAt : Moment}
    {turn : Turn} (hpc : m.pc = .completing startedAt turn)
    (haccount : m'.host.account = m.host.account) (hreturned : event.returned = [])
    (hrefused : event.refused startedAt) (hbroken : m'.pc.broken = true) :
    m'.Report start (events ++ [event]) recorded lost := by
  obtain ⟨before, hevents, hrecorded, rfl⟩ := h.pending hpc
  obtain ⟨hnever, hgoes⟩ := OwnerPc.never_of_broken hbroken
  have hlonger : events ++ [event]
      = before ++ .beginTurn startedAt :: .endTurn (.ok turn) :: event :: [] := by
    rw [hevents, List.append_assoc]
    rfl
  refine ⟨?_, haccount.trans h.account, .refused hbroken hlonger hrecorded hrefused,
    h.accepted.snoc List.prefix_rfl fun before' startedAt' turn' completedAt hevents' heq hle => ?_,
    fun startedAt' hpc' => ?_, fun startedAt' hpc' => ?_, fun startedAt' turn' hpc' => ?_,
    fun hpc' => absurd hpc' hgoes⟩
  · rw [List.flatMap_append, List.flatMap_singleton, hreturned, List.append_nil]
    exact h.turns
  · -- the refused look is not accepted: it is the look after the same turn
    obtain ⟨-, hlast⟩ := List.append_inj' (hevents.symm.trans hevents') rfl
    cases hlast
    rw [heq] at hrefused
    exact absurd hle (not_le.mpr hrefused)
  · exact absurd hpc' (hnever startedAt')
  · exact absurd (congrArg OwnerPc.startedAt hpc') (hnever startedAt')
  · exact absurd (congrArg OwnerPc.startedAt hpc') (hnever startedAt')

/-- The duty returns a turn. -/
theorem Member.Report.returns (h : m.Report start events recorded lost) {startedAt : Moment}
    (hpc : m.pc = .inTurn startedAt) (turn : Turn) :
    { m with pc := .completing startedAt turn : Member D C W }.Report start
      (events ++ [.endTurn (.ok turn)]) recorded [turn] := by
  obtain ⟨before, hevents⟩ := h.turning startedAt hpc
  have hturns : events.flatMap Event.returned = recorded := by
    rw [h.turns, h.missing.eq_nil (by rw [hpc]; rfl) (by rw [hpc]; exact nofun), List.append_nil]
  have hlonger : events ++ [.endTurn (.ok turn)]
      = before ++ [.beginTurn startedAt, .endTurn (.ok turn)] := by
    rw [hevents, List.append_assoc]
    rfl
  have hrecorded : recorded = before.flatMap Event.returned := by
    rw [← hturns, hevents, List.flatMap_append]
    exact List.append_nil _
  refine ⟨?_, h.account, .pending rfl hlonger hrecorded,
    h.accepted.snoc List.prefix_rfl fun _ _ _ _ _ heq => (nomatch heq), fun startedAt' hpc' => ?_,
    nofun, fun _ _ _ => List.cons_ne_nil _ _, by rintro (hpc' | hpc') <;> cases hpc'⟩
  · rw [List.flatMap_append, hturns, List.flatMap_singleton]
    rfl
  · cases hpc'
    exact h.started startedAt (by rw [hpc]; rfl)

/-- The look at the clock after the turn is accepted. -/
theorem Member.Report.record (h : m.Report start events recorded lost) {startedAt : Moment}
    {turn : Turn} (hpc : m.pc = .completing startedAt turn) (completedAt : Moment) :
    { m with
      host := m.host.completed turn completedAt
      pc := .select (HostAction.forTurn turn completedAt m.host.config) : Member D C W }.Report
      start (events ++ [.complete (.ok completedAt)]) (recorded ++ [turn]) [] := by
  obtain ⟨before, hevents, hrecorded, rfl⟩ := h.pending hpc
  have hnever : ∀ startedAt' (pc : OwnerPc D C W), pc.startedAt = some startedAt' →
      .select (HostAction.forTurn turn completedAt m.host.config) ≠ pc := by
    rintro startedAt' pc hstarted rfl
    rw [OwnerPc.startedAt_select] at hstarted
    cases hstarted
  refine ⟨?_, ?_, .none, h.accepted.snoc (List.prefix_append ..) ?_,
    fun startedAt' hpc' => absurd rfl (hnever startedAt' _ hpc'),
    fun startedAt' hpc' => absurd hpc' (hnever startedAt' _ rfl),
    fun startedAt' _ hpc' => absurd hpc' (hnever startedAt' _ rfl), fun hpc' => ⟨turn, ?_, ?_⟩⟩
  · rw [List.flatMap_append, h.turns, List.flatMap_singleton]
    rfl
  · rw [List.foldl_append, ← h.account]
    rfl
  · intro before' startedAt' turn' completedAt' hevents' _ _
    obtain ⟨hbefore, hlast⟩ := List.append_inj' (hevents.symm.trans hevents') rfl
    cases hlast
    have hsame : before'.flatMap Event.returned ++ [turn] = recorded ++ [turn] := by
      rw [← hbefore, hrecorded]
    exact hsame ▸ List.prefix_rfl
  · rw [List.getLast?_append, List.getLast?_singleton]
    rfl
  · exact HostAction.forTurn_eq_stop.mp (OwnerPc.eq_stop_of_select hpc')

theorem Member.Report.next (h : m.Report start events recorded lost)
    (hstep : Member.Step m event m') :
    ∃ recorded' lost', m'.Report start (events ++ [event]) recorded' lost' := by
  cases hstep with
  | check hpc | recheck hpc =>
    refine ⟨recorded, lost, h.pass rfl rfl nofun (by rw [hpc]; exact nofun)
      (by rw [hpc]; exact nofun) ?_ ?_⟩
    · show OwnerPc.startedAt (if _ then _ else _) = _
      split_ifs <;> rfl
    · show (if _ then _ else _) = OwnerPc.stopping ∨ OwnerPc.outcome (if _ then _ else _) = _ → _
      split_ifs <;> simp [OwnerPc.outcome]
  | terminate hpc =>
    exact ⟨recorded, lost, h.pass rfl rfl nofun (by rw [hpc]; exact nofun)
      (by rw [hpc]; exact nofun) rfl (by simp [OwnerPc.outcome])⟩
  | @start observed host startedAt hpc hstart =>
    obtain ⟨haccount, hlast⟩ := EmbeddedHost.start_cases hstart
    refine ⟨recorded, lost, h.move haccount rfl nofun (by rw [hpc]; exact nofun)
      (by rw [hpc]; exact nofun) nofun (fun startedAt' hpc' => ?_) nofun
      (by simp [OwnerPc.outcome])⟩
    cases hpc'
    exact hlast startedAt rfl
  | startFails hpc hstart =>
    exact ⟨recorded, lost, h.pass (EmbeddedHost.start_cases hstart).1 rfl nofun
      (by rw [hpc]; exact nofun) (by rw [hpc]; exact nofun) rfl (by simp [OwnerPc.outcome])⟩
  | @beginTurn startedAt hpc =>
    refine ⟨recorded, lost, h.move rfl rfl nofun (by rw [hpc]; exact nofun)
      (by rw [hpc]; exact nofun) nofun (fun startedAt' hpc' => ?_) (fun startedAt' hpc' => ?_)
      (by simp [OwnerPc.outcome])⟩
    · cases hpc'
      exact h.started startedAt (by rw [hpc]; rfl)
    · cases hpc'
      rfl
  | beginWait hpc | endWait hpc | waitFails hpc =>
    exact ⟨recorded, lost, h.pass rfl rfl nofun (by rw [hpc]; exact nofun)
      (by rw [hpc]; exact nofun) rfl (by simp [OwnerPc.outcome])⟩
  | @endTurn startedAt result host turn hpc hturned =>
    cases result with
    | ok =>
      cases hturned
      exact ⟨recorded, [turn], h.returns hpc turn⟩
    | error => cases hturned
  | @turnFails startedAt result host error hpc hturned =>
    cases result with
    | ok => cases hturned
    | error =>
      cases hturned
      exact ⟨recorded, lost, h.pass rfl rfl nofun (by rw [hpc]; exact nofun)
        (by rw [hpc]; exact nofun) rfl (by simp [OwnerPc.outcome])⟩
  | @complete startedAt turn observed host step hpc hcomplete =>
    rcases m.host.complete_cases (D := D) startedAt turn observed with
      ⟨error, -, hcomplete'⟩ | ⟨completedAt, rfl, -, hcomplete'⟩
    · rw [hcomplete'] at hcomplete
      cases hcomplete
    · rw [hcomplete'] at hcomplete
      cases hcomplete
      exact ⟨recorded ++ [turn], [], h.record hpc completedAt⟩
  | @completeFails startedAt turn observed host error hpc hcomplete =>
    rcases m.host.complete_cases (D := D) startedAt turn observed with
      ⟨error', hrefuses, hcomplete'⟩ | ⟨moment, -, -, hcomplete'⟩
    · rw [hcomplete'] at hcomplete
      cases hcomplete
      refine ⟨recorded, lost, h.refuse hpc rfl rfl ?_ rfl⟩
      cases hrefuses with
      | failed => trivial
      | regressed hprevious hlt =>
        -- the latest look is the one before the turn
        rw [h.started startedAt (by rw [hpc]; rfl)] at hprevious
        cases hprevious
        exact hlt
    · rw [hcomplete'] at hcomplete
      cases hcomplete
  | stop hpc =>
    refine ⟨recorded, lost, h.pass ?_ rfl nofun (by rw [hpc]; exact nofun)
      (by rw [hpc]; exact nofun) rfl fun _ => .inl hpc⟩
    show EmbeddedHost.account (if _ then _ else _) = _
    split_ifs <;> rfl
  | fail hpc =>
    exact ⟨recorded, lost, h.pass rfl rfl nofun (fun _ => rfl) (by rw [hpc]; exact nofun) rfl
      (by simp [OwnerPc.outcome])⟩
  | panic hcalling =>
    by_cases hcompleting : ∃ startedAt turn, m.pc = .completing startedAt turn
    · obtain ⟨startedAt, turn, hpc⟩ := hcompleting
      exact ⟨recorded, lost, h.refuse hpc rfl rfl trivial rfl⟩
    · exact ⟨recorded, lost, h.pass rfl rfl nofun (fun _ => rfl)
        (fun startedAt turn hpc => hcompleting ⟨startedAt, turn, hpc⟩) rfl
        (by simp [OwnerPc.outcome])⟩
  | @drop outcome hpc =>
    refine ⟨recorded, lost, h.pass rfl rfl nofun ?_ (by rw [hpc]; exact nofun) rfl ?_⟩
    · rw [hpc]
      cases outcome <;> exact id
    · rintro (hstopping | houtcome)
      · cases hstopping
      · right
        rw [hpc]
        exact houtcome
  | dropUnwound hpc =>
    exact ⟨recorded, lost, h.pass rfl rfl nofun (fun _ => rfl) (by rw [hpc]; exact nofun) rfl
      (by simp [Member.drop, OwnerPc.outcome])⟩

end

theorem new_report (host : EmbeddedHost) :
    (Member.new host : Member D C W).Report host.account [] [] [] where
  turns := rfl
  account := rfl
  missing := .none
  accepted before _ _ _ _ hevents :=
    absurd hevents.symm (List.append_ne_nil_of_right_ne_nil before nofun)
  started := nofun
  turning := nofun
  completing := nofun
  stopped hpc := by rcases hpc with hpc | hpc <;> cases hpc

/-- The reactor's account changes with the waits that return. -/
theorem Member.Step.waited {m m' : Member D C W} {event : Event D C W}
    (hstep : Member.Step m event m') :
    m'.snapshot = event.waited.foldl ReactorSnapshot.record m.snapshot := by
  cases hstep <;> rfl

theorem run_report {host : EmbeddedHost} {s : State D C W E} {tr : List (Label D C W E)}
    (hrun : Steps Step ⟨.new host, fun _ => none⟩ tr s) :
    s.member.snapshot
      = ((tr.flatMap Label.owned).flatMap Event.waited).foldl ReactorSnapshot.record .default ∧
    ∃ recorded lost,
      s.member.Report host.account (tr.flatMap Label.owned) recorded lost := by
  refine hrun.invariant (I := fun tr (s : State D C W E) => s.member.snapshot
      = ((tr.flatMap Label.owned).flatMap Event.waited).foldl ReactorSnapshot.record .default ∧
    ∃ recorded lost, s.member.Report host.account (tr.flatMap Label.owned) recorded lost) ?_ ?_
  · exact ⟨rfl, [], [], new_report host⟩
  rintro tr u l v - ⟨hwaited, recorded, lost, hreport⟩ hstep
  rw [List.flatMap_append, List.flatMap_singleton, List.flatMap_append, List.foldl_append,
    ← hwaited]
  cases hstep with
  | owner hstep =>
    refine ⟨?_, hreport.next hstep⟩
    rw [show Label.owned _ = [_] from rfl, List.flatMap_singleton]
    exact hstep.waited
  | publish =>
    refine ⟨rfl, recorded, lost, ?_⟩
    rw [show Label.owned _ = [] from rfl, List.append_nil]
    exact ⟨hreport.turns, hreport.account, hreport.missing, hreport.accepted, hreport.started,
      hreport.turning, hreport.completing, hreport.stopped⟩
  | complete | panic =>
    rw [show Label.owned _ = [] from rfl, List.append_nil]
    exact ⟨rfl, recorded, lost, hreport⟩

/-- **The report.**  Whatever is requested while the loop runs:

* the reactor has counted the waits that have returned, by what they saw;
* the host has counted and added up the turns that have returned, in this order, but for one
  at most: it records a turn once it accepts the look at the clock that follows, and the last
  turn is missing only while that look is still to come, or if it was refused or unwound;
* after a turn that asks to stop neither a turn nor a wait begins, and a reactor that has
  stopped has such a turn, recorded, as its last. -/
theorem reactor_report {host : EmbeddedHost} {s : State D C W E} {tr : List (Label D C W E)}
    (hrun : Steps Step ⟨.new host, fun _ => none⟩ tr s) :
    let events := tr.flatMap Label.owned
    (s.member.snapshot.waits.val = min (events.flatMap Event.waited).length (2 ^ 64 - 1) ∧
      s.member.snapshot.notifications.val
        = min ((events.flatMap Event.waited).count .notified) (2 ^ 64 - 1) ∧
      s.member.snapshot.idleReturns.val
        = min ((events.flatMap Event.waited).count .idle) (2 ^ 64 - 1)) ∧
    (∃ recorded lost, events.flatMap Event.returned = recorded ++ lost ∧
      Missing events s.member.pc recorded lost ∧ Accepted events recorded ∧
      s.member.host.snapshot.turns.val
        = min (host.snapshot.turns.val + recorded.length) (2 ^ 64 - 1) ∧
      s.member.host.snapshot.work.val
        = min (host.snapshot.work.val + (recorded.map fun turn => turn.work.val).sum) (2 ^ 64 - 1) ∧
      s.member.host.snapshot.lastTurn = recorded.getLast?.or host.snapshot.lastTurn ∧
      (s.member.pc.outcome = some .stopped → lost = [] ∧
        ∃ turn ∈ recorded.getLast?, turn.next = .stop)) ∧
    ∀ before turn after, tr = before ++ .owner (.endTurn (.ok turn)) :: after →
      turn.next = .stop →
      ∀ event ∈ after.flatMap Label.owned, event.begins = false ∧ event.returned = [] := by
  intro events
  obtain ⟨hwaited, recorded, lost, hreport⟩ := run_report hrun
  have hwaits := ReactorSnapshot.foldl_record (events.flatMap Event.waited) .default
  rw [← hwaited] at hwaits
  have haccount := HostAccount.foldl_charge recorded host.account
  rw [← hreport.account] at haccount
  simp only [show ReactorSnapshot.default = ⟨0, 0, 0⟩ from rfl, Fin.val_zero, Nat.zero_add]
    at hwaits
  obtain ⟨hturns, hwork, hlast⟩ := haccount
  refine ⟨hwaits, ⟨recorded, lost, hreport.turns, hreport.missing, hreport.accepted, hturns, hwork,
    hlast, fun hstopped => ⟨?_, hreport.stopped (.inr hstopped)⟩⟩, ?_⟩
  · refine hreport.missing.eq_nil ?_ ?_
    · cases hpc : s.member.pc <;> rw [hpc] at hstopped <;> cases hstopped <;> rfl
    · intro startedAt turn hpc
      rw [hpc] at hstopped
      cases hstopped
  · rintro before turn after rfl hstop
    exact run_stops hrun hstop

/-- A turn of two, a wait that is notified, and a turn of three that stops: none is missing. -/
theorem reactor_report_stopped :
    ∃ (tr : List (Label Unit Unit Unit Unit)) (s : State Unit Unit Unit Unit),
      Steps Step ⟨.new (.new .default), fun _ => none⟩ tr s ∧
      s.member.pc.outcome = some .stopped ∧ s.member.snapshot.waits = 1 ∧
      s.member.snapshot.notifications.val
        = min ((tr.flatMap Label.owned).flatMap Event.waited |>.count .notified) (2 ^ 64 - 1) ∧
      (tr.flatMap Label.owned).flatMap Event.returned = [⟨2, .wake⟩, ⟨3, .stop⟩] ∧
      Missing (tr.flatMap Label.owned) s.member.pc [⟨2, .wake⟩, ⟨3, .stop⟩] [] ∧
      s.member.host.snapshot.work = 5 := by
  have hfirst : EmbeddedHost.complete (D := Unit) (C := Unit)
      ⟨.default, ⟨.running, 0, 0, some 5, none, none⟩⟩ 5 ⟨2, .wake⟩ (.ok 6)
      = (⟨.default, ⟨.running, 1, 2, some 6, some ⟨2, .wake⟩, some (.wait 100000000)⟩⟩,
        .ok ⟨5, 6, ⟨2, .wake⟩, .wait 100000000⟩) := by decide +kernel
  have hlast : EmbeddedHost.complete (D := Unit) (C := Unit)
      ⟨.default, ⟨.running, 1, 2, some 7, some ⟨2, .wake⟩, some (.wait 100000000)⟩⟩ 7 ⟨3, .stop⟩
        (.ok 8)
      = (⟨.default, ⟨.stopped, 2, 5, some 8, some ⟨3, .stop⟩, some .stop⟩⟩,
        .ok ⟨7, 8, ⟨3, .stop⟩, .stop⟩) := by decide +kernel
  have hagain : EmbeddedHost.start (D := Unit) (C := Unit)
      ⟨.default, ⟨.running, 1, 2, some 6, some ⟨2, .wake⟩, some (.wait 100000000)⟩⟩ (.ok 7)
      = (⟨.default, ⟨.running, 1, 2, some 7, some ⟨2, .wake⟩, some (.wait 100000000)⟩⟩, .ok 7) := by
    decide +kernel
  have hturned : ∀ (host : EmbeddedHost) turn, host.turned (D := Unit) (C := Unit) (.ok turn)
      = (host, .ok turn) := fun _ _ => rfl
  have hstart : Steps Step
      (⟨.new (.new .default), fun _ => none⟩ : State Unit Unit Unit Unit) [] _ := .refl
  have hturn := (((hstart.snoc (.owner (.check rfl))).snoc
    (.owner (@Member.Step.start _ _ _ _ (.ok 5) _ _ rfl rfl))).snoc (.owner (.beginTurn rfl))).snoc
    (.owner (.endTurn rfl (hturned _ ⟨2, .wake⟩)))
  have hwait := (((hturn.snoc (.owner (.complete rfl hfirst))).snoc (.owner (.recheck rfl))).snoc
    (.owner (.beginWait rfl))).snoc (.owner (@Member.Step.endWait _ _ _ _ .notified rfl))
  have hsecond := (((hwait.snoc (.owner (.check rfl))).snoc (.owner (.start rfl hagain))).snoc
    (.owner (.beginTurn rfl))).snoc (.owner (.endTurn rfl (hturned _ ⟨3, .stop⟩)))
  have hstopped := (hsecond.snoc (.owner (.complete rfl hlast))).snoc (.owner (.stop rfl))
  obtain ⟨⟨-, hnotified, -⟩, ⟨recorded, lost, hturns, hmissing, -, -, -, -, hlast⟩, -⟩ :=
    reactor_report hstopped
  obtain ⟨rfl, -⟩ := hlast rfl
  obtain rfl : _ = recorded := hturns.trans (List.append_nil _)
  exact ⟨_, _, hstopped, rfl, rfl, hnotified, rfl, hmissing, rfl⟩

end Reactor

end Calandria
