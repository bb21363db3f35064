/-
Bounded drains compose.

A bounded drain looks at the lanes one after the other and takes what its limit
leaves of each.  Seen from outside the lanes are one line, the backlog: controls
before work.  A drain takes a piece of that line, so it does not matter in how many
drains it is taken.

* `Shared.drainInto_backlog` — a drain takes the front of the backlog;
* `Shared.ext_backlog` — what is left of it determines the mailbox;
* `drains_accumulate` — consecutive drains take what one drain of their total takes, and
  they have reached the end exactly when their limits add up to the backlog.
-/
import Calandria.Mailbox

namespace Calandria

namespace Mailbox

variable {T U W : Type}

namespace Shared

/-- What is queued, in the order in which a drain takes it. -/
def backlog (shared : Shared T) : List (Entry T) :=
  shared.state.control.queue ++ shared.state.work.queue

/-- Consecutive drains into one destination. -/
def drains (shared : Shared T) (destination : List T) :
    List NonZeroUsize → Except Panic (Shared T × List T × List DrainReport)
  | [] => .ok (shared, destination, [])
  | limit :: limits => do
    let (shared, destination, report) ← shared.drainInto destination limit
    let (shared, destination, reports) ← shared.drains destination limits
    .ok (shared, destination, report :: reports)

/-- What several drains may take together. -/
def allowance (limits : List NonZeroUsize) : ℕ := (limits.map fun limit => limit.get.val).sum

/-- The two pieces that a drain takes are one piece of the backlog. -/
theorem taken_backlog (shared : Shared T) (limit : ℕ) :
    shared.taken limit .control ++ shared.taken limit .work = shared.backlog.take limit := by
  have hcontrol : shared.taken limit .control = shared.state.control.queue.take limit := by
    show shared.state.control.queue.take (min limit _) = _
    rw [← List.take_take, List.take_length]
  have hwork : shared.taken limit .work
      = shared.state.work.queue.take (limit - shared.state.control.queue.length) := by
    show shared.state.work.queue.take (min (limit - min limit _) _) = _
    rw [← List.take_take, List.take_length]
    congr 1
    omega
  rw [hcontrol, hwork, backlog, List.take_append]

/-- `shared'` is `shared` without the first `n` values of its backlog. -/
structure DrainedBy (shared : Shared T) (n : ℕ) (shared' : Shared T) : Prop where
  wf : shared'.WF
  frame : shared' = { shared with
    state := { shared.state with control := shared'.state.control, work := shared'.state.work } }
  control : shared'.state.control.queue = shared.state.control.queue.drop n
  work : shared'.state.work.queue
    = shared.state.work.queue.drop (n - shared.state.control.queue.length)

theorem DrainedBy.zero {shared : Shared T} (h : shared.WF) : shared.DrainedBy 0 shared :=
  ⟨h, rfl, rfl, by rw [Nat.zero_sub, List.drop_zero]⟩

theorem DrainedBy.trans {shared mid shared' : Shared T} {n m : ℕ} (h : shared.DrainedBy n mid)
    (h' : mid.DrainedBy m shared') : shared.DrainedBy (n + m) shared' := by
  refine ⟨h'.wf, ?_, ?_, ?_⟩
  · rw [h'.frame, h.frame]
  · rw [h'.control, h.control, List.drop_drop]
  · rw [h'.work, h.work, h.control, List.drop_drop, List.length_drop]
    congr 1
    omega

theorem DrainedBy.backlog {shared shared' : Shared T} {n : ℕ} (h : shared.DrainedBy n shared') :
    shared'.backlog = shared.backlog.drop n := by
  rw [Shared.backlog, h.control, h.work, Shared.backlog, List.drop_append]

/-- What is queued in a lane determines its total. -/
theorem ext_lane {limits : LaneLimits} {state state' : LaneState T} (h : state.WF limits)
    (h' : state'.WF limits) (hqueue : state.queue = state'.queue) : state = state' := by
  have hretained : state.retained = state'.retained :=
    Fin.ext (by rw [h.exact, h'.exact, hqueue])
  cases state
  cases state'
  exact congrArg₂ LaneState.mk hqueue hretained

/-- There is one way to drain so many values. -/
theorem DrainedBy.unique {shared first second : Shared T} {n : ℕ} (h : shared.DrainedBy n first)
    (h' : shared.DrainedBy n second) : first = second := by
  have hlimits : first.limits = second.limits := by rw [h.frame, h'.frame]
  have hcontrol : first.state.control = second.state.control :=
    ext_lane (h.wf .control) (hlimits ▸ h'.wf .control) (h.control.trans h'.control.symm)
  have hwork : first.state.work = second.state.work :=
    ext_lane (h.wf .work) (hlimits ▸ h'.wf .work) (h.work.trans h'.work.symm)
  rw [h.frame, h'.frame, hcontrol, hwork]

/-- What a drain reports once nothing is queued. -/
def endStatus (shared : Shared T) : DrainStatus :=
  if !shared.state.receiverAlive || shared.state.senders = 0 then .closed else .idle

theorem isEmpty_iff_backlog (shared : Shared T) :
    shared.state.isEmpty = true ↔ shared.backlog.length = 0 := by
  rw [backlog, List.length_eq_zero_iff, List.append_eq_nil_iff]
  simp [State.isEmpty]

theorem DrainedBy.status {shared shared' : Shared T} {n : ℕ} (h : shared.DrainedBy n shared') :
    shared'.state.status
      = if n < shared.backlog.length then .morePending else shared.endStatus := by
  have hend : shared'.endStatus = shared.endStatus := by rw [endStatus, h.frame, endStatus]
  have hempty : shared'.state.isEmpty = true ↔ ¬ n < shared.backlog.length := by
    rw [isEmpty_iff_backlog, h.backlog, List.length_drop]
    omega
  rw [State.status]
  by_cases hlt : n < shared.backlog.length
  · rw [if_neg (fun he => hempty.mp he hlt), if_pos hlt]
  · rw [if_pos (hempty.mpr hlt), if_neg hlt]
    exact hend

theorem drainInto_frame {shared shared' : Shared T} {destination destination' : List T}
    {limit : NonZeroUsize} {report : DrainReport}
    (h : shared.drainInto destination limit = .ok (shared', destination', report)) :
    shared' = { shared with
      state := { shared.state with
        control := shared'.state.control, work := shared'.state.work } } := by
  simp only [drainInto, bind, Except.bind] at h
  cases hcontrol : LaneState.drainInto (shared.quota limit.get.val .control) shared.state.control
      destination with
  | error => simp [hcontrol] at h
  | ok controls =>
    simp only [hcontrol] at h
    cases hwork : LaneState.drainInto (shared.quota limit.get.val .work) shared.state.work
        controls.2 with
    | error => simp [hwork] at h
    | ok works =>
      simp only [hwork, Except.ok.injEq, Prod.mk.injEq] at h
      rw [← h.1]

/-- **A drain takes the front of the backlog.** -/
theorem drainInto_backlog {shared : Shared T} (h : shared.WF) (destination : List T)
    (limit : NonZeroUsize) :
    ∃ shared', shared.drainInto destination limit
        = .ok (shared', destination ++ values (shared.backlog.take limit.get.val),
          ⟨min limit.get.val shared.backlog.length, shared'.state.status⟩) ∧
      shared.DrainedBy limit.get.val shared' := by
  obtain ⟨shared', hdrain, hwf, -, -, -, hqueue⟩ := drainInto_cases h destination limit
  refine ⟨shared', ?_, hwf, drainInto_frame hdrain, ?_, ?_⟩
  · have hvalues : values (shared.taken limit.get.val .control)
        ++ values (shared.taken limit.get.val .work)
        = values (shared.backlog.take limit.get.val) := by
      rw [← taken_backlog, values, values, values, List.map_append]
    have hlength := congrArg List.length (shared.taken_backlog limit.get.val)
    rw [List.length_append, List.length_take] at hlength
    rw [hdrain, List.append_assoc, hvalues, hlength]
  · exact (hqueue .control).trans List.drop_eq_drop_min.symm
  · refine (hqueue .work).trans ?_
    show shared.state.work.queue.drop (min (limit.get.val - min limit.get.val _) _) = _
    rw [← List.drop_eq_drop_min]
    congr 1
    omega

/-- What consecutive drains report. -/
def reportsOf (queued : ℕ) (last : DrainStatus) : List NonZeroUsize → List DrainReport
  | [] => []
  | limit :: rest =>
    ⟨min limit.get.val queued, if limit.get.val < queued then .morePending else last⟩
      :: reportsOf (queued - limit.get.val) last rest

theorem drains_backlog {shared : Shared T} (h : shared.WF) (destination : List T)
    (limits : List NonZeroUsize) :
    ∃ shared', shared.drains destination limits
        = .ok (shared', destination ++ values (shared.backlog.take (allowance limits)),
          reportsOf shared.backlog.length shared.endStatus limits) ∧
      shared.DrainedBy (allowance limits) shared' := by
  induction limits generalizing shared destination with
  | nil => exact ⟨shared, by simp [drains, allowance, values, reportsOf], .zero h⟩
  | cons limit rest ih =>
    obtain ⟨mid, hdrain, hmid⟩ := drainInto_backlog h destination limit
    obtain ⟨shared', hrest, hdrained⟩ := ih hmid.wf
      (destination ++ values (shared.backlog.take limit.get.val))
    refine ⟨shared', ?_, hmid.trans hdrained⟩
    have hend : mid.endStatus = shared.endStatus := by rw [endStatus, hmid.frame, endStatus]
    have hvalues : values (shared.backlog.take limit.get.val)
        ++ values (mid.backlog.take (allowance rest))
        = values (shared.backlog.take (allowance (limit :: rest))) := by
      rw [hmid.backlog, values, values, values, ← List.map_append, ← List.take_add]
      rfl
    simp only [drains, hdrain, hrest, bind, Except.bind]
    rw [List.append_assoc, hvalues, hmid.status, hmid.backlog, List.length_drop, hend, reportsOf]

end Shared

/-- **Bounded drains compose.**  In every state that an interleaving of senders and receiver can
reach, consecutive drains under any limits hand over the front of the backlog, controls before
work, as long as their limits together allow; each reports what it took, and more pending
exactly if something is left.  How the total is divided into limits makes no difference to what
is handed over or to the mailbox that is left. -/
theorem drains_accumulate {limits : MailboxLimits} {measure : T → RetainedBytes}
    {tr : List (Performed T U W)} {shared : Shared T}
    (hrun : (system limits measure U W).recording.Run tr shared) (destination : List T)
    (budgets : List NonZeroUsize) :
    ∃ shared', shared.drains destination budgets
        = .ok (shared', destination ++ values (shared.backlog.take (Shared.allowance budgets)),
          Shared.reportsOf shared.backlog.length shared.endStatus budgets) ∧
      shared'.backlog = shared.backlog.drop (Shared.allowance budgets) ∧
      (shared'.state.isEmpty = true ↔ shared.backlog.length ≤ Shared.allowance budgets) ∧
      ∀ budgets', Shared.allowance budgets' = Shared.allowance budgets →
        ∃ reports, shared.drains destination budgets' = .ok (shared', destination
          ++ values (shared.backlog.take (Shared.allowance budgets)), reports) := by
  have hwf := (conservation hrun).2.1.lanes
  obtain ⟨shared', hdrains, hdrained⟩ := Shared.drains_backlog hwf destination budgets
  refine ⟨shared', hdrains, hdrained.backlog, ?_, fun budgets' hsame => ?_⟩
  · rw [Shared.isEmpty_iff_backlog, hdrained.backlog, List.length_drop]
    omega
  · obtain ⟨shared'', hdrains', hdrained'⟩ := Shared.drains_backlog hwf destination budgets'
    rw [hsame] at hdrains' hdrained'
    obtain rfl := hdrained.unique hdrained'
    exact ⟨_, hdrains'⟩

/-- Three values drained by two and one, as by one and two. -/
theorem drains_accumulate_queued :
    let ops : List (Op U64 ℕ Unit) :=
      [.trySend .work 4 (.ok ()), .trySend .control 1 (.ok ()), .trySend .work 3 (.ok ())]
    let shared := (performAll (.new smallLimits id) ops).2
    ∃ shared' reports, shared.drains [] [⟨1, U64.one_ne_zero⟩, ⟨2, U64.two_ne_zero⟩]
      = .ok (shared', [1, 4, 3], reports) := by
  intro ops shared
  obtain ⟨shared', -, -, -, hsame⟩ := drains_accumulate (performAll_run smallLimits id ops) []
    [⟨2, U64.two_ne_zero⟩, ⟨1, U64.one_ne_zero⟩]
  obtain ⟨reports, hdrains⟩ := hsame [⟨1, U64.one_ne_zero⟩, ⟨2, U64.two_ne_zero⟩] rfl
  exact ⟨shared', reports, hdrains⟩

end Mailbox

end Calandria
