/-
Transactional atomicity of action contexts.

A context call does one of the few things listed by `Performs`, and never
panics (`perform_cases`).  `Transaction start ctx` says how a context in
progress differs from the context the action started with: which pending
events were inserted, which were removed, and that the byte accounts are the
exact sums.  It survives every call (`Transaction.performs`), hence every
callback (`Program.run_cases`), and dropping an uncommitted context undoes it
exactly (`Transaction.drop`).
-/
import Calandria.Context
import Calandria.TransitionSystem

namespace Calandria

namespace Timeline

/-- Agreement on everything but the pending events and the id counter. -/
structure SameFrame {E : Type} (t t' : Timeline E) : Prop where
  id : t.id = t'.id
  clock : t.clock = t'.clock
  limits : t.limits = t'.limits
  measure : t.measure = t'.measure

theorem SameFrame.refl {E : Type} (t : Timeline E) : t.SameFrame t := ⟨rfl, rfl, rfl, rfl⟩

theorem SameFrame.trans {E : Type} {t t' t'' : Timeline E} (h : t.SameFrame t')
    (h' : t'.SameFrame t'') : t.SameFrame t'' :=
  ⟨h.id.trans h'.id, h.clock.trans h'.clock, h.limits.trans h'.limits,
    h.measure.trans h'.measure⟩

theorem Admits.frame {E : Type} {t t' : Timeline E} {moment : Moment} {event : E}
    {token : EventToken} (h : t.Admits moment event token t') : t'.SameFrame t := by
  rw [h.result]
  exact ⟨rfl, rfl, rfl, rfl⟩

theorem Removes.frame {E : Type} {t t' : Timeline E} {token : EventToken} {entry : Entry E}
    (h : t.Removes token entry t') : t'.SameFrame t := by
  rw [h.result]
  exact ⟨rfl, rfl, rfl, rfl⟩

variable {E : Type} [Retained E]

/-- `t'` is `t` with the event put back under its token. -/
structure Restores (t : Timeline E) (token : EventToken) (event : E) (t' : Timeline E) :
    Prop where
  retained : t'.retained.val = t.retained.val + (Retained.retainedBytes event).val
  result : t' = { t with
    retained := t'.retained
    events := t.events.insert token.key ⟨event, Retained.retainedBytes event⟩ }

/-- The room and the place that `restore` asserts. -/
structure Restorable (t : Timeline E) (token : EventToken) (event : E) : Prop where
  own : token.timeline = t.id
  future : t.now ≤ token.moment
  count : t.events.size < t.limits.pendingEvents.get.val
  bytes : t.retained.val + (Retained.retainedBytes event).val ≤ t.limits.retainedBytes.val
  vacant : t.lookup token = none
  issued : t.Issued token.id

theorem restore_ok {t : Timeline E} {token : EventToken} {event : E}
    (h : t.Restorable token event) :
    ∃ t', t.restore token event = .ok t' ∧ t.Restores token event t' := by
  have hlimit := t.limits.retainedBytes.isLt
  have hbytes := h.bytes
  have hadd : t.retained.checkedAdd (Retained.retainedBytes event)
      = some ⟨t.retained.val + (Retained.retainedBytes event).val, by omega⟩ :=
    U64.checkedAdd_eq_some.mpr rfl
  have hvac := h.vacant
  rw [lookup_eq h.own] at hvac
  have hfit : ¬ t.limits.retainedBytes
      < ⟨t.retained.val + (Retained.retainedBytes event).val, by omega⟩ :=
    not_lt.mpr (Fin.le_def.mpr hbytes)
  refine ⟨{ t with
    retained := ⟨t.retained.val + (Retained.retainedBytes event).val, by omega⟩
    events := t.events.insert token.key ⟨event, Retained.retainedBytes event⟩ }, ?_, rfl, rfl⟩
  rw [restore, if_neg (not_not.mpr h.own), if_neg (not_lt.mpr h.future),
    if_neg (not_le.mpr h.count)]
  simp only [hadd, if_neg hfit, hvac]

theorem Restores.frame {t t' : Timeline E} {token : EventToken} {event : E}
    (h : t.Restores token event t') : t'.SameFrame t := by
  rw [h.result]
  exact ⟨rfl, rfl, rfl, rfl⟩

theorem Restores.lookup {t t' : Timeline E} {token : EventToken} {event : E}
    (h : t.Restores token event t') (hown : token.timeline = t.id) (token' : EventToken) :
    t'.lookup token' = if token' = token then some ⟨event, Retained.retainedBytes event⟩
      else t.lookup token' :=
  lookup_insert (by rw [h.result]) hown (by rw [h.result]) token'

theorem Restores.wf {t t' : Timeline E} {token : EventToken} {event : E}
    (h : t.Restores token event t') (hok : t.Restorable token event) (hwf : t.WF)
    (hmeasure : t.measure = Retained.retainedBytes) : t'.WF := by
  have hvac := hok.vacant
  rw [lookup_eq hok.own] at hvac
  have hclock : t'.now = t.now := by rw [h.result]; rfl
  have hm : t'.measure = t.measure := by rw [h.result]
  have hissued : ∀ {id}, t.Issued id → t'.Issued id := by
    intro id hid
    rw [Issued, h.result]
    exact hid
  have hev : t'.events
      = t.events.insert token.key ⟨event, Retained.retainedBytes event⟩ := by rw [h.result]
  have hlimits : t'.limits = t.limits := by rw [h.result]
  refine ⟨fun {token' entry} hl => ?_, fun {token' entry} hl => ?_, fun {token' entry} hl => ?_,
    ?_, ?_, ?_⟩
  · rw [h.lookup hok.own] at hl
    split_ifs at hl with heq
    · exact heq ▸ hissued hok.issued
    · exact hissued (hwf.issued hl)
  · rw [h.lookup hok.own] at hl
    split_ifs at hl with heq
    · obtain rfl := Option.some_inj.mp hl
      rw [hm, hmeasure]
    · rw [hm, hwf.measured hl]
  · rw [h.lookup hok.own] at hl
    split_ifs at hl with heq
    · exact hclock ▸ heq ▸ hok.future
    · exact hclock ▸ hwf.future hl
  · rw [h.retained, hev, OrderedMap.total_insert _ hvac, hwf.retained, Nat.add_comm]
  · rw [Fin.le_def, hlimits, h.retained]
    exact hok.bytes
  · have := hok.count
    rw [hev, OrderedMap.size_insert hvac, hlimits]
    omega

end Timeline

namespace ActionContext

variable {E O : Type}

/-! ### What a context call can do -/

/-- Agreement on everything a callback cannot change. -/
structure SameFrame (ctx ctx' : ActionContext E O) : Prop where
  topology : ctx.topology = ctx'.topology
  stopped : ctx.stopped = ctx'.stopped
  action : ctx.action = ctx'.action
  now : ctx.now = ctx'.now
  limits : ctx.limits = ctx'.limits
  committed : ctx.committed = ctx'.committed
  timeline : ctx.timeline.SameFrame ctx'.timeline

theorem SameFrame.trans {ctx ctx' ctx'' : ActionContext E O} (h : ctx.SameFrame ctx')
    (h' : ctx'.SameFrame ctx'') : ctx.SameFrame ctx'' :=
  ⟨h.topology.trans h'.topology, h.stopped.trans h'.stopped, h.action.trans h'.action,
    h.now.trans h'.now, h.limits.trans h'.limits, h.committed.trans h'.committed,
    h.timeline.trans h'.timeline⟩

variable [Retained E]

/-- `ctx'` is `ctx` after a successful send. -/
structure Inserts (ctx : ActionContext E O) (target : DutyId) (moment : Moment) (event : E)
    (token : EventToken) (ctx' : ActionContext E O) : Prop where
  admits : ctx.timeline.Admits moment ⟨target, some ctx.action, event⟩ token ctx'.timeline
  future : ctx.timeline.now ≤ moment
  known : ctx.topology.contains target = true
  live : target ∉ ctx.stopped
  bounded : moment ≤ ctx.limits.maxTime
  bytes : ctx'.effectBytes.val = ctx.effectBytes.val + (Retained.retainedBytes event).val
  result : ctx' = { ctx with
    timeline := ctx'.timeline, effects := ctx'.effects, effectBytes := ctx'.effectBytes
    inserted := ctx.inserted.insert token (Retained.retainedBytes event) }

/-- `ctx'` is `ctx` after the cancellation of an event this action inserted. -/
structure CancelsOwn (ctx : ActionContext E O) (token : EventToken)
    (entry : Entry (Routed E)) (ctx' : ActionContext E O) : Prop where
  own : ctx.inserted.get? token = some entry.retained
  removes : ctx.timeline.Removes token entry ctx'.timeline
  bytes : ctx.effectBytes.val = ctx'.effectBytes.val + entry.retained.val
  result : ctx' = { ctx with
    timeline := ctx'.timeline, effects := ctx'.effects, effectBytes := ctx'.effectBytes
    inserted := ctx.inserted.erase token }

/-- `ctx'` is `ctx` after the cancellation of an event pending before this action. -/
structure CancelsOld (ctx : ActionContext E O) (token : EventToken)
    (entry : Entry (Routed E)) (ctx' : ActionContext E O) : Prop where
  old : ctx.inserted.get? token = none
  removes : ctx.timeline.Removes token entry ctx'.timeline
  bytes : ctx'.effectBytes.val = ctx.effectBytes.val + entry.retained.val
  result : ctx' = { ctx with
    timeline := ctx'.timeline, effects := ctx'.effects, effectBytes := ctx'.effectBytes
    removed := ctx.removed ++ [(token, entry.event)] }

end ActionContext

/-- The target and the event of a send. -/
def ContextCall.sends {E O : Type} : ContextCall E O → Option (DutyId × E)
  | .send target event => some (target, event)
  | .sendAfter target _ event => some (target, event)
  | .sendAt target _ event => some (target, event)
  | .cancel _ => none
  | .observe _ => none

/-- Everything a context call can do. -/
inductive Performs {E O : Type} [Retained E] (ctx : ActionContext E O) :
    ContextCall E O → ContextReply E O → ActionContext E O → Prop
  | unsent {request target event failure} : request.sends = some (target, event) →
      Performs ctx request (.sent (.error ⟨event, failure⟩)) ctx
  | sent {request target event moment token ctx'} : request.sends = some (target, event) →
      ctx.Inserts target moment event token ctx' →
      Performs ctx request (.sent (.ok token)) ctx'
  | uncancelled {token failure} :
      Performs ctx (.cancel token) (.cancelled (.error failure)) ctx
  | cancelledOwn {token entry ctx'} : ctx.CancelsOwn token entry ctx' →
      Performs ctx (.cancel token) (.cancelled (.ok ())) ctx'
  | cancelledOld {token entry ctx'} : ctx.CancelsOld token entry ctx' →
      Performs ctx (.cancel token) (.cancelled (.ok ())) ctx'
  | observed {observation result observations observationBytes} :
      Performs ctx (.observe observation) (.observed result)
        { ctx with observations, observationBytes }

theorem Performs.frame {E O : Type} [Retained E] {ctx ctx' : ActionContext E O}
    {request : ContextCall E O} {reply : ContextReply E O} (h : Performs ctx request reply ctx') :
    ctx'.SameFrame ctx := by
  cases h with
  | unsent => exact ⟨rfl, rfl, rfl, rfl, rfl, rfl, .refl _⟩
  | sent _ hi =>
    have := hi.admits.frame
    rw [hi.result]
    exact ⟨rfl, rfl, rfl, rfl, rfl, rfl, this⟩
  | uncancelled => exact ⟨rfl, rfl, rfl, rfl, rfl, rfl, .refl _⟩
  | cancelledOwn hc =>
    have := hc.removes.frame
    rw [hc.result]
    exact ⟨rfl, rfl, rfl, rfl, rfl, rfl, this⟩
  | cancelledOld hc =>
    have := hc.removes.frame
    rw [hc.result]
    exact ⟨rfl, rfl, rfl, rfl, rfl, rfl, this⟩
  | observed => exact ⟨rfl, rfl, rfl, rfl, rfl, rfl, .refl _⟩

/-! ### What a context call checks -/

namespace ActionContext

variable {E O : Type}

/-- What a send checks once its moment is known, in the order of the source. -/
def sendChecks [Retained E] (ctx : ActionContext E O) (target : DutyId) (moment : Moment)
    (event : E) : List (Check SendFailure) :=
  let retained := Retained.retainedBytes event
  [⟨ctx.limits.effects.get ≤ ctx.effects, .effectCapacity ctx.limits.effects⟩,
    ⟨target ∉ ctx.topology.duties, .unknownTarget target⟩,
    ⟨target ∈ ctx.stopped, .targetStopped target⟩,
    ⟨ctx.limits.maxTime < moment, .beyondTimeLimit moment ctx.limits.maxTime⟩,
    ⟨2 ^ 64 ≤ ctx.effectBytes.val + retained.val, .retainedByteOverflow ctx.effectBytes retained⟩,
    ⟨ctx.limits.effectBytes.val < ctx.effectBytes.val + retained.val,
      .retainedByteCapacity ctx.limits.effectBytes ctx.effectBytes retained⟩]
  ++ (ctx.timeline.scheduleChecks moment retained).map
    fun check => ⟨check.violated, .timeline check.failure⟩

/-- The charge for the removal of an event that this action did not insert. -/
def chargeChecks (ctx : ActionContext E O) (retained : RetainedBytes) :
    List (Check CancelFailure) :=
  [⟨2 ^ 64 ≤ ctx.effectBytes.val + retained.val, .retainedByteOverflow ctx.effectBytes retained⟩,
    ⟨ctx.limits.effectBytes.val < ctx.effectBytes.val + retained.val,
      .retainedByteCapacity ctx.limits.effectBytes ctx.effectBytes retained⟩]

/-- What a cancellation checks: one of an own insertion is not charged. -/
def cancelChecks (ctx : ActionContext E O) (token : EventToken) : List (Check CancelFailure) :=
  [⟨ctx.limits.effects.get ≤ ctx.effects, .effectCapacity ctx.limits.effects⟩,
    ⟨token.timeline ≠ ctx.timeline.id, .foreignTimeline ctx.timeline.id token.timeline⟩,
    ⟨(ctx.timeline.lookup token).isNone, .notPending token⟩]
  ++ match ctx.inserted.get? token, ctx.timeline.lookup token with
    | none, some entry => ctx.chargeChecks entry.retained
    | _, _ => []

def observeChecks [Retained O] (ctx : ActionContext E O) (observation : O) :
    List (Check ObservationFailure) :=
  let retained := Retained.retainedBytes observation
  [⟨ctx.limits.observations.get.val ≤ ctx.observations.length, .capacity ctx.limits.observations⟩,
    ⟨2 ^ 64 ≤ ctx.observationBytes.val + retained.val,
      .retainedByteOverflow ctx.observationBytes retained⟩,
    ⟨ctx.limits.observationBytes.val < ctx.observationBytes.val + retained.val,
      .retainedByteCapacity ctx.limits.observationBytes ctx.observationBytes retained⟩]

end ActionContext

/-- The reply to a call that violates a check: the failure of the first that it
violates, beside what the call brought. -/
def ContextCall.rejection {E O : Type} [Retained E] [Retained O] (ctx : ActionContext E O) :
    ContextCall E O → Option (ContextReply E O)
  | .send target event =>
    (firstViolation (ctx.sendChecks target ctx.now event)).map
      fun failure => .sent (.error ⟨event, failure⟩)
  | .sendAfter target delay event =>
    -- the moment is only used where the sum does not wrap around
    (firstViolation (⟨2 ^ 64 ≤ ctx.now.val + delay.val, .timeOverflow ctx.now delay⟩ ::
      ctx.sendChecks target (ctx.now + delay) event)).map
      fun failure => .sent (.error ⟨event, failure⟩)
  | .sendAt target moment event =>
    (firstViolation (ctx.sendChecks target moment event)).map
      fun failure => .sent (.error ⟨event, failure⟩)
  | .cancel token =>
    (firstViolation (ctx.cancelChecks token)).map fun failure => .cancelled (.error failure)
  | .observe observation =>
    (firstViolation (ctx.observeChecks observation)).map
      fun failure => .observed (.error ⟨observation, failure⟩)

/-- One effect more, within the limits. -/
structure ActionContext.Spends {E O : Type} (ctx ctx' : ActionContext E O) : Prop where
  effects : ctx'.effects.val = ctx.effects.val + 1
  limit : ctx'.effects ≤ ctx.limits.effects.get
  bytes : ctx'.effectBytes ≤ ctx.limits.effectBytes ∨ ctx'.effectBytes ≤ ctx.effectBytes

/-- What a context call does to the budgets. -/
inductive Books {E O : Type} [Retained E] [Retained O] (ctx : ActionContext E O) :
    ContextCall E O → ContextReply E O → ActionContext E O → Prop
  | rejected {request reply} : request.rejection ctx = some reply → Books ctx request reply ctx
  | sent {request target event moment token ctx'} : request.rejection ctx = none →
      request.sends = some (target, event) → ctx.Inserts target moment event token ctx' →
      ctx.Spends ctx' → Books ctx request (.sent (.ok token)) ctx'
  | cancelledOwn {token entry ctx'} : (ContextCall.cancel token).rejection ctx = none →
      ctx.CancelsOwn token entry ctx' → ctx.Spends ctx' →
      Books ctx (.cancel token) (.cancelled (.ok ())) ctx'
  | cancelledOld {token entry ctx'} : (ContextCall.cancel token).rejection ctx = none →
      ctx.CancelsOld token entry ctx' → ctx.Spends ctx' →
      Books ctx (.cancel token) (.cancelled (.ok ())) ctx'
  | observed {observation observationBytes} :
      (ContextCall.observe observation).rejection ctx = none →
      ctx.observations.length < ctx.limits.observations.get.val →
      observationBytes.val
        = ctx.observationBytes.val + (Retained.retainedBytes observation).val →
      observationBytes ≤ ctx.limits.observationBytes →
      Books ctx (.observe observation) (.observed (.ok ())) { ctx with
        observations := ctx.observations ++ [observation], observationBytes }

theorem Books.performs {E O : Type} [Retained E] [Retained O] {ctx ctx' : ActionContext E O}
    {request : ContextCall E O} {reply : ContextReply E O} (h : Books ctx request reply ctx') :
    Performs ctx request reply ctx' := by
  cases h with
  | rejected hrejected =>
    cases request with
    | send | sendAfter | sendAt =>
      obtain ⟨failure, -, rfl⟩ := Option.map_eq_some_iff.mp hrejected
      exact .unsent rfl
    | cancel =>
      obtain ⟨failure, -, rfl⟩ := Option.map_eq_some_iff.mp hrejected
      exact .uncancelled
    | observe =>
      obtain ⟨failure, -, rfl⟩ := Option.map_eq_some_iff.mp hrejected
      exact .observed
  | sent _ hsends hi _ => exact .sent hsends hi
  | cancelledOwn _ hc _ => exact .cancelledOwn hc
  | cancelledOld _ hc _ => exact .cancelledOld hc
  | observed => exact .observed

/-! ### The transaction invariant -/

/-- The bytes of the removed events. -/
def removedBytes {E : Type} [Retained E] (removed : List (EventToken × Routed E)) : ℕ :=
  (removed.map fun r => (Retained.retainedBytes r.2).val).sum

/-- `ctx` is a transaction in progress over the context `start`. -/
structure Transaction {E O : Type} [Retained E] (start ctx : ActionContext E O) : Prop where
  startWF : start.timeline.WF
  measure : start.timeline.measure = Retained.retainedBytes
  frame : ctx.SameFrame start
  wf : ctx.timeline.WF
  issued : ∀ {id}, start.timeline.Issued id → ctx.timeline.Issued id
  old : ∀ {token}, start.timeline.Issued token.id → ctx.timeline.lookup token =
    if token ∈ ctx.removed.map Prod.fst then none else start.timeline.lookup token
  new : ∀ {token}, ¬ start.timeline.Issued token.id →
    ctx.inserted.get? token = (ctx.timeline.lookup token).map Entry.retained
  insertedNew : ∀ {token retained}, ctx.inserted.get? token = some retained →
    ¬ start.timeline.Issued token.id
  removedOld : ∀ {token routed}, (token, routed) ∈ ctx.removed →
    ∃ entry, start.timeline.lookup token = some entry ∧ entry.event = routed
  removedNodup : (ctx.removed.map Prod.fst).Nodup
  count : ctx.timeline.events.size + ctx.removed.length
    = start.timeline.events.size + ctx.inserted.size
  retained : ctx.timeline.retained.val + removedBytes ctx.removed
    = start.timeline.retained.val + ctx.inserted.total fun b => b.val
  bytes : ctx.effectBytes.val
    = (ctx.inserted.total fun b => b.val) + removedBytes ctx.removed

namespace Transaction

variable {E O : Type} [Retained E] {start ctx ctx' : ActionContext E O}

theorem begin (hwf : start.timeline.WF) (hmeasure : start.timeline.measure = Retained.retainedBytes)
    (hinserted : start.inserted = .empty) (hremoved : start.removed = [])
    (hbytes : start.effectBytes = 0) : Transaction start start where
  startWF := hwf
  measure := hmeasure
  frame := ⟨rfl, rfl, rfl, rfl, rfl, rfl, .refl _⟩
  wf := hwf
  issued := id
  old _ := by simp [hremoved]
  new {token} hnew := by
    have hnone : start.timeline.lookup token = none := by
      by_contra hne
      obtain ⟨entry, hentry⟩ := Option.ne_none_iff_exists'.mp hne
      exact hnew (hwf.issued hentry)
    simp [hinserted, hnone]
  insertedNew h := by simp [hinserted] at h
  removedOld h := by simp [hremoved] at h
  removedNodup := by simp [hremoved]
  count := by simp [hinserted, hremoved]
  retained := by simp [hinserted, hremoved, removedBytes]
  bytes := by simp [hinserted, hremoved, hbytes, removedBytes]

theorem timelineMeasure (h : Transaction start ctx) :
    ctx.timeline.measure = Retained.retainedBytes :=
  h.frame.timeline.measure.trans h.measure

theorem inserts {target : DutyId} {moment : Moment} {event : E} {token : EventToken}
    (h : Transaction start ctx) (hi : ctx.Inserts target moment event token ctx') :
    Transaction start ctx' := by
  have hframe := (Performs.sent (rfl : (ContextCall.sendAt target moment event).sends = _) hi).frame
  -- the token is new, to the start and to the context
  have hfresh : ¬ start.timeline.Issued token.id := fun hs => hi.admits.not_issued (h.issued hs)
  have hvac : ctx.inserted.get? token = none := by
    rw [h.new hfresh, h.wf.vacant hi.admits.fresh]
    rfl
  have hins : ctx'.inserted = ctx.inserted.insert token (Retained.retainedBytes event) := by
    rw [hi.result]
  have hrem : ctx'.removed = ctx.removed := by rw [hi.result]
  have hmeasure : ctx.timeline.measure ⟨target, some ctx.action, event⟩
      = Retained.retainedBytes event := by
    rw [h.timelineMeasure]
    rfl
  have hevents : ctx'.timeline.events = ctx.timeline.events.insert token.key
      ⟨⟨target, some ctx.action, event⟩, ctx.timeline.measure ⟨target, some ctx.action, event⟩⟩ := by
    rw [hi.admits.result]
  refine ⟨h.startWF, h.measure, hframe.trans h.frame, hi.admits.wf h.wf hi.future,
    fun hs => hi.admits.issued (.inl (h.issued hs)), fun {token'} hs => ?_, fun {token'} hs => ?_,
    fun {token' retained} hs => ?_, fun hm => h.removedOld (hrem ▸ hm), hrem ▸ h.removedNodup,
    ?_, ?_, ?_⟩
  · have hne : token' ≠ token := fun he => hfresh (he ▸ hs)
    rw [hi.admits.lookup, if_neg hne, h.old hs, hrem]
  · rw [hi.admits.lookup, hins, OrderedMap.get?_insert]
    split_ifs with heq
    · simp [hmeasure]
    · exact h.new hs
  · rw [hins, OrderedMap.get?_insert] at hs
    split_ifs at hs with heq
    · exact heq ▸ hfresh
    · exact h.insertedNew hs
  · have hvac' := h.wf.vacant hi.admits.fresh
    rw [Timeline.lookup_eq hi.admits.timeline] at hvac'
    have hcount := h.count
    rw [hevents, OrderedMap.size_insert hvac', hins, OrderedMap.size_insert hvac, hrem]
    omega
  · have hretained := h.retained
    rw [hi.admits.retained, hins, OrderedMap.total_insert _ hvac, hrem, hmeasure]
    omega
  · have hbytes := h.bytes
    rw [hi.bytes, hins, OrderedMap.total_insert _ hvac, hrem]
    omega

theorem cancelsOwn {token : EventToken} {entry : Entry (Routed E)} (h : Transaction start ctx)
    (hc : ctx.CancelsOwn token entry ctx') : Transaction start ctx' := by
  have hframe := (Performs.cancelledOwn hc).frame
  have hfresh := h.insertedNew hc.own
  have hins : ctx'.inserted = ctx.inserted.erase token := by rw [hc.result]
  have hrem : ctx'.removed = ctx.removed := by rw [hc.result]
  have hevents : ctx'.timeline.events = ctx.timeline.events.erase token.key := by
    rw [hc.removes.result]
  refine ⟨h.startWF, h.measure, hframe.trans h.frame, hc.removes.wf h.wf,
    fun hs => hc.removes.issued.mpr (h.issued hs), fun {token'} hs => ?_, fun {token'} hs => ?_,
    fun {token' retained} hs => ?_, fun hm => h.removedOld (hrem ▸ hm), hrem ▸ h.removedNodup,
    ?_, ?_, ?_⟩
  · have hne : token' ≠ token := fun he => hfresh (he ▸ hs)
    rw [hc.removes.lookup, if_neg hne, h.old hs, hrem]
  · rw [hc.removes.lookup, hins, OrderedMap.get?_erase]
    split_ifs with heq
    · rfl
    · exact h.new hs
  · rw [hins, OrderedMap.get?_erase] at hs
    split_ifs at hs
    exact h.insertedNew hs
  · have hp := hc.removes.pending
    rw [Timeline.lookup_eq (Timeline.lookup_own hp)] at hp
    have hcount := h.count
    rw [OrderedMap.size_erase hp, OrderedMap.size_erase hc.own] at hcount
    rw [hevents, hins, hrem]
    omega
  · have hretained := h.retained
    rw [hc.removes.retained, OrderedMap.total_erase _ hc.own] at hretained
    rw [hins, hrem]
    omega
  · have hbytes := h.bytes
    rw [hc.bytes, OrderedMap.total_erase _ hc.own] at hbytes
    rw [hins, hrem]
    omega

/-- An event that a cancellation puts among the removed was pending at the start,
and was not among them. -/
theorem old_entry {token : EventToken} {entry : Entry (Routed E)} (h : Transaction start ctx)
    (hc : ctx.CancelsOld token entry ctx') :
    start.timeline.Issued token.id ∧ start.timeline.lookup token = some entry ∧
      token ∉ ctx.removed.map Prod.fst := by
  -- a token minted since would be in `inserted`, which it is not
  have hold : start.timeline.Issued token.id := by
    by_contra hnew
    have hget := h.new hnew
    rw [hc.old, hc.removes.pending] at hget
    cases hget
  have hlook := h.old hold
  rw [hc.removes.pending] at hlook
  split_ifs at hlook with hmem
  exact ⟨hold, hlook.symm, hmem⟩

theorem cancelsOld {token : EventToken} {entry : Entry (Routed E)} (h : Transaction start ctx)
    (hc : ctx.CancelsOld token entry ctx') : Transaction start ctx' := by
  have hframe := (Performs.cancelledOld hc).frame
  obtain ⟨hold, hlook, hmem⟩ := h.old_entry hc
  have hins : ctx'.inserted = ctx.inserted := by rw [hc.result]
  have hrem : ctx'.removed = ctx.removed ++ [(token, entry.event)] := by rw [hc.result]
  have hbytesRem : removedBytes ctx'.removed = removedBytes ctx.removed + entry.retained.val := by
    have hm := h.startWF.measured hlook
    rw [h.measure] at hm
    simp [hrem, removedBytes, hm]
  have hevents : ctx'.timeline.events = ctx.timeline.events.erase token.key := by
    rw [hc.removes.result]
  refine ⟨h.startWF, h.measure, hframe.trans h.frame, hc.removes.wf h.wf,
    fun hs => hc.removes.issued.mpr (h.issued hs), fun {token'} hs => ?_, fun {token'} hs => ?_,
    fun hs => h.insertedNew (hins ▸ hs), fun {token' routed} hm => ?_, ?_, ?_, ?_, ?_⟩
  · rw [hc.removes.lookup, h.old hs, hrem]
    by_cases heq : token' = token
    · simp [heq]
    · simp only [heq, if_false, List.map_append, List.map_singleton, List.mem_append,
        List.mem_singleton, or_false]
  · have hne : token' ≠ token := fun he => hs (he ▸ hold)
    rw [hc.removes.lookup, if_neg hne, hins, h.new hs]
  · rw [hrem] at hm
    rcases List.mem_append.mp hm with hm | hm
    · exact h.removedOld hm
    · obtain ⟨rfl, rfl⟩ := Prod.mk.inj (List.mem_singleton.mp hm)
      exact ⟨entry, hlook, rfl⟩
  · rw [hrem, List.map_append, List.map_singleton]
    exact List.nodup_append.mpr ⟨h.removedNodup, by simp, by
      rintro a ha b hb rfl
      obtain rfl := List.mem_singleton.mp hb
      exact hmem ha⟩
  · have hp := hc.removes.pending
    rw [Timeline.lookup_eq (Timeline.lookup_own hp)] at hp
    have hcount := h.count
    rw [OrderedMap.size_erase hp] at hcount
    rw [hevents, hins, hrem, List.length_append, List.length_singleton]
    omega
  · have hretained := h.retained
    rw [hc.removes.retained] at hretained
    rw [hins, hbytesRem]
    omega
  · have hbytes := h.bytes
    rw [hc.bytes, hins, hbytesRem]
    omega

/-- **The step lemma**: a context call keeps the transaction invariant. -/
theorem performs {request : ContextCall E O} {reply : ContextReply E O}
    (h : Transaction start ctx) (hp : Performs ctx request reply ctx') :
    Transaction start ctx' := by
  have hframe := hp.frame
  cases hp with
  | unsent => exact h
  | sent _ hi => exact h.inserts hi
  | uncancelled => exact h
  | cancelledOwn hc => exact h.cancelsOwn hc
  | cancelledOld hc => exact h.cancelsOld hc
  | observed =>
    exact ⟨h.startWF, h.measure, hframe.trans h.frame, h.wf, h.issued, h.old, h.new,
      h.insertedNew, h.removedOld, h.removedNodup, h.count, h.retained, h.bytes⟩

/-! ### No context call panics -/

theorem validateTarget_cases (h : Transaction start ctx) (target : DutyId) (moment : Moment)
    (event : E) :
    (∃ failure, firstViolation (ctx.sendChecks target moment event) = some failure ∧
      ctx.validateTarget target moment event = .ok (ctx, .error ⟨event, failure⟩)) ∨
    ∃ token ctx', firstViolation (ctx.sendChecks target moment event) = none ∧
      ctx.validateTarget target moment event = .ok (ctx', .ok token) ∧
      ctx.Inserts target moment event token ctx' ∧ ctx.Spends ctx' := by
  rw [ActionContext.validateTarget, ActionContext.sendChecks]
  dsimp only [List.cons_append, List.nil_append]
  by_cases heffects : ctx.limits.effects.get ≤ ctx.effects
  · exact .inl ⟨_, firstViolation_violated heffects _ _, if_pos heffects⟩
  rw [if_neg heffects, firstViolation_passed heffects]
  by_cases hknown : target ∈ ctx.topology.duties
  swap
  · exact .inl ⟨_, firstViolation_violated hknown _ _,
      if_pos (by simpa [Topology.contains] using hknown)⟩
  have hcontains : ctx.topology.contains target = true := by
    simpa [Topology.contains] using hknown
  rw [if_neg (by simpa using hcontains), firstViolation_passed (not_not.mpr hknown)]
  by_cases hstopped : target ∈ ctx.stopped
  · exact .inl ⟨_, firstViolation_violated hstopped _ _, if_pos hstopped⟩
  rw [if_neg hstopped, firstViolation_passed hstopped]
  by_cases htime : ctx.limits.maxTime < moment
  · exact .inl ⟨_, firstViolation_violated htime _ _, if_pos htime⟩
  rw [if_neg htime, firstViolation_passed htime, ActionContext.admitEvent]
  cases hadd : ctx.effectBytes.checkedAdd (Retained.retainedBytes event) with
  | none => exact .inl ⟨_, firstViolation_violated (U64.checkedAdd_eq_none.mp hadd) _ _, rfl⟩
  | some nextBytes =>
    have hsum := U64.checkedAdd_eq_some.mp hadd
    have hlt := nextBytes.isLt
    rw [← hsum, firstViolation_passed (Nat.not_le.mpr hlt)]
    by_cases hbytes : ctx.limits.effectBytes < nextBytes
    · exact .inl ⟨_, firstViolation_violated (Fin.lt_def.mp hbytes) _ _, if_pos hbytes⟩
    simp only [if_neg hbytes]
    rw [firstViolation_passed (mt Fin.lt_def.mpr hbytes), firstViolation_map]
    have hcases := Timeline.scheduleAt_cases h.wf moment ⟨target, some ctx.action, event⟩
    rw [h.timelineMeasure] at hcases
    rcases hcases with ⟨failure, hfirst, hfail⟩ | ⟨token, timeline, hfirst, hok, hadmits, hfuture⟩
    · exact .inl ⟨.timeline failure, congrArg (Option.map _) hfirst, by rw [hfail]; rfl⟩
    · obtain ⟨effects, hinc, heffects'⟩ := U64.increment_ok (not_le.mp heffects)
      refine .inr ⟨token, { ctx with
        timeline, effects, effectBytes := nextBytes
        inserted := ctx.inserted.insert token (Retained.retainedBytes event) },
        congrArg (Option.map _) hfirst, ?_,
        ⟨hadmits, hfuture, hcontains, hstopped, not_lt.mp htime, hsum, rfl⟩,
        heffects', ?_, .inl (not_lt.mp hbytes)⟩
      · rw [hok]
        simp only [bind, Except.bind, hinc]
      · rw [Fin.le_def, heffects']
        exact Fin.lt_def.mp (not_le.mp heffects)

theorem cancel_cases (h : Transaction start ctx) (token : EventToken) :
    (∃ failure, firstViolation (ctx.cancelChecks token) = some failure ∧
      ctx.cancel token = .ok (ctx, .error failure)) ∨
    ∃ entry ctx', firstViolation (ctx.cancelChecks token) = none ∧
      ctx.cancel token = .ok (ctx', .ok ()) ∧
      (ctx.CancelsOwn token entry ctx' ∨ ctx.CancelsOld token entry ctx') ∧ ctx.Spends ctx' := by
  rw [ActionContext.cancel, ActionContext.cancelChecks]
  dsimp only [List.cons_append, List.nil_append]
  by_cases heffects : ctx.limits.effects.get ≤ ctx.effects
  · exact .inl ⟨_, firstViolation_violated heffects _ _, if_pos heffects⟩
  rw [if_neg heffects, firstViolation_passed heffects]
  by_cases hforeign : token.timeline ≠ ctx.timeline.id
  · exact .inl ⟨_, firstViolation_violated hforeign _ _, if_pos hforeign⟩
  rw [if_neg hforeign, firstViolation_passed hforeign]
  obtain ⟨effects, hinc, heffects'⟩ := U64.increment_ok (not_le.mp heffects)
  have hlimit : effects ≤ ctx.limits.effects.get := by
    rw [Fin.le_def, heffects']
    exact Fin.lt_def.mp (not_le.mp heffects)
  rcases Timeline.cancel_cases h.wf token with ⟨hnone, _⟩ | ⟨entry, timeline, hcancel, hremoves⟩
  · rw [Timeline.retainedFor, hnone]
    exact .inl ⟨_, rfl, rfl⟩
  have hfor : ctx.timeline.retainedFor token = some entry.retained := by
    rw [Timeline.retainedFor, hremoves.pending]
    rfl
  rw [hremoves.pending, firstViolation_cons, if_neg (by simp)]
  simp only [hfor]
  cases hown : ctx.inserted.get? token with
  | some retained =>
    have hretained : retained = entry.retained := by
      have := h.new (h.insertedNew hown)
      rw [hown, hremoves.pending] at this
      exact Option.some_inj.mp this
    subst hretained
    -- the account holds at least what this insertion added
    have hle : entry.retained.val ≤ ctx.effectBytes.val := by
      rw [h.bytes, OrderedMap.total_erase _ hown]
      omega
    have hlt := ctx.effectBytes.isLt
    have hsub : ctx.effectBytes.checkedSub entry.retained
        = some ⟨ctx.effectBytes.val - entry.retained.val, by omega⟩ :=
      U64.checkedSub_eq_some.mpr (by simp only; omega)
    refine .inr ⟨entry, { ctx with
      timeline, effects, effectBytes := ⟨ctx.effectBytes.val - entry.retained.val, by omega⟩
      inserted := ctx.inserted.erase token }, rfl, ?_, .inl ⟨hown, hremoves, ?_, rfl⟩,
      heffects', hlimit, .inr (Nat.sub_le _ _)⟩
    · rw [hcancel]
      simp only [bind, Except.bind, hsub, hinc]
    · simp only
      omega
  | none =>
    dsimp only
    rw [ActionContext.chargeChecks]
    cases hadd : ctx.effectBytes.checkedAdd entry.retained with
    | none => exact .inl ⟨_, firstViolation_violated (U64.checkedAdd_eq_none.mp hadd) _ _, rfl⟩
    | some nextBytes =>
      have hsum := U64.checkedAdd_eq_some.mp hadd
      have hlt := nextBytes.isLt
      rw [← hsum, firstViolation_passed (Nat.not_le.mpr hlt)]
      by_cases hbytes : ctx.limits.effectBytes < nextBytes
      · exact .inl ⟨_, firstViolation_violated (Fin.lt_def.mp hbytes) _ _, if_pos hbytes⟩
      simp only [if_neg hbytes]
      refine .inr ⟨entry, { ctx with
        timeline, effects, effectBytes := nextBytes
        removed := ctx.removed ++ [(token, entry.event)] },
        firstViolation_passed (mt Fin.lt_def.mpr hbytes) _ _, ?_,
        .inr ⟨hown, hremoves, hsum, rfl⟩, heffects', hlimit, .inl (not_lt.mp hbytes)⟩
      rw [hcancel]
      simp only [bind, Except.bind, hinc]

variable [Retained O]

theorem observe_cases (ctx : ActionContext E O) (observation : O) :
    ∃ result ctx', ctx.observe observation = (ctx', result) ∧
      Books ctx (.observe observation) (.observed result) ctx' := by
  have hbooks : ∀ {failure}, firstViolation (ctx.observeChecks observation) = some failure →
      Books ctx (.observe observation) (.observed (.error ⟨observation, failure⟩)) ctx :=
    fun hfirst => .rejected (by rw [ContextCall.rejection, hfirst]; rfl)
  rw [ActionContext.observe]
  by_cases hcount : ctx.limits.observations.get.val ≤ ctx.observations.length
  · exact ⟨_, _, if_pos hcount, hbooks (firstViolation_violated hcount _ _)⟩
  rw [if_neg hcount]
  dsimp only
  cases hadd : ctx.observationBytes.checkedAdd (Retained.retainedBytes observation) with
  | none =>
    refine ⟨_, _, rfl, hbooks ?_⟩
    rw [ActionContext.observeChecks, firstViolation_passed hcount]
    exact firstViolation_violated (U64.checkedAdd_eq_none.mp hadd) _ _
  | some nextBytes =>
    have hsum := U64.checkedAdd_eq_some.mp hadd
    have hlt := nextBytes.isLt
    have hfirst : firstViolation (ctx.observeChecks observation)
        = firstViolation [⟨ctx.limits.observationBytes.val < nextBytes.val,
          .retainedByteCapacity ctx.limits.observationBytes ctx.observationBytes
            (Retained.retainedBytes observation)⟩] := by
      rw [ActionContext.observeChecks, firstViolation_passed hcount, ← hsum,
        firstViolation_passed (Nat.not_le.mpr hlt)]
    by_cases hbytes : ctx.limits.observationBytes < nextBytes
    · exact ⟨_, _, if_pos hbytes,
        hbooks (hfirst.trans (firstViolation_violated (Fin.lt_def.mp hbytes) _ _))⟩
    refine ⟨_, _, if_neg hbytes, .observed ?_ (not_le.mp hcount) hsum (not_lt.mp hbytes)⟩
    rw [ContextCall.rejection, hfirst, firstViolation_passed (mt Fin.lt_def.mpr hbytes)]
    rfl

/-- **No context call panics**, and each is rejected with its first violation or
does one of the things `Books` lists. -/
theorem perform_books (h : Transaction start ctx) (request : ContextCall E O) :
    ∃ ctx' reply, ctx.perform request = .ok (ctx', reply) ∧ Books ctx request reply ctx' := by
  -- the three ways to send differ in the moment they ask for
  have hsend : ∀ (request : ContextCall E O) {target event} (moment : Moment),
      request.sends = some (target, event) →
      request.rejection ctx = (firstViolation (ctx.sendChecks target moment event)).map
        (fun failure => .sent (.error ⟨event, failure⟩)) → ∃ ctx' result,
        ctx.validateTarget target moment event = .ok (ctx', result) ∧
          Books ctx request (.sent result) ctx' := by
    intro request target event moment hreq hrejection
    rcases h.validateTarget_cases target moment event with
      ⟨failure, hfirst, hfail⟩ | ⟨token, ctx', hfirst, hok, hi, hspends⟩
    · exact ⟨_, _, hfail, .rejected (by rw [hrejection, hfirst]; rfl)⟩
    · exact ⟨_, _, hok, .sent (by rw [hrejection, hfirst]; rfl) hreq hi hspends⟩
  cases request with
  | send target event =>
    obtain ⟨ctx', result, hrun, hp⟩ := hsend (.send target event) ctx.now rfl rfl
    refine ⟨ctx', .sent result, ?_, hp⟩
    rw [ActionContext.perform, ActionContext.send, ActionContext.sendAt, hrun]
    rfl
  | sendAfter target delay event =>
    cases hadd : ctx.now.checkedAdd delay with
    | none =>
      refine ⟨ctx, .sent (.error ⟨event, .timeOverflow ctx.now delay⟩), ?_, .rejected ?_⟩
      · simp only [ActionContext.perform, ActionContext.sendAfter, hadd]
        rfl
      · rw [ContextCall.rejection, firstViolation_violated (U64.checkedAdd_eq_none.mp hadd)]
        rfl
    | some moment =>
      have hsum := U64.checkedAdd_eq_some.mp hadd
      have hlt := moment.isLt
      have hmoment : ctx.now + delay = moment := by
        rw [Fin.ext_iff, Fin.val_add, ← hsum, Nat.mod_eq_of_lt hlt]
      -- no overflow, so the checked moment is the wrapped sum `rejection` is stated with
      obtain ⟨ctx', result, hrun, hp⟩ := hsend (.sendAfter target delay event) moment rfl (by
        rw [ContextCall.rejection, ← hsum, firstViolation_passed (Nat.not_le.mpr hlt), hmoment])
      refine ⟨ctx', .sent result, ?_, hp⟩
      simp only [ActionContext.perform, ActionContext.sendAfter, hadd, ActionContext.sendAt, hrun]
      rfl
  | sendAt target moment event =>
    obtain ⟨ctx', result, hrun, hp⟩ :=
      hsend (.sendAt target moment event) moment rfl rfl
    refine ⟨ctx', .sent result, ?_, hp⟩
    rw [ActionContext.perform, ActionContext.sendAt, hrun]
    rfl
  | cancel token =>
    rcases h.cancel_cases token with
      ⟨failure, hfirst, hfail⟩ | ⟨entry, ctx', hfirst, hok, hc, hspends⟩
    · exact ⟨ctx, .cancelled (.error failure), by rw [ActionContext.perform, hfail]; rfl,
        .rejected (by rw [ContextCall.rejection, hfirst]; rfl)⟩
    · have hpassed : (ContextCall.cancel token).rejection ctx = none := by
        rw [ContextCall.rejection, hfirst]
        rfl
      refine ⟨ctx', .cancelled (.ok ()), by rw [ActionContext.perform, hok]; rfl, ?_⟩
      rcases hc with hc | hc
      · exact .cancelledOwn hpassed hc hspends
      · exact .cancelledOld hpassed hc hspends
  | observe observation =>
    obtain ⟨result, ctx', hobs, hbooks⟩ := observe_cases ctx observation
    exact ⟨ctx', .observed result, by rw [ActionContext.perform, hobs], hbooks⟩

theorem perform_cases (h : Transaction start ctx) (request : ContextCall E O) :
    ∃ ctx' reply, ctx.perform request = .ok (ctx', reply) ∧ Performs ctx request reply ctx' := by
  obtain ⟨ctx', reply, hperform, hbooks⟩ := h.perform_books request
  exact ⟨ctx', reply, hperform, hbooks.performs⟩

end Transaction

/-- One step of a callback: a context call and its reply. -/
def ContextStep {E O : Type} [Retained E] (ctx : ActionContext E O)
    (l : ContextCall E O × ContextReply E O) (ctx' : ActionContext E O) : Prop :=
  Performs ctx l.1 l.2 ctx'

theorem Transaction.steps {E O : Type} [Retained E] {start ctx ctx' : ActionContext E O}
    {log : List (ContextCall E O × ContextReply E O)} (h : Transaction start ctx)
    (hlog : Steps ContextStep ctx log ctx') : Transaction start ctx' :=
  hlog.preserves (fun hu hs => hu.performs hs) h

/-- **The run lemma**: a callback never panics inside the context, and what it
does is the composition of its context calls. -/
theorem Program.run_cases {E O α : Type} [Retained E] [Retained O] {start ctx : ActionContext E O}
    (program : Program E O α) (h : Transaction start ctx) :
    ∃ ctx' log result, program.run ctx = .ok (ctx', log, result) ∧
      Steps ContextStep ctx log ctx' := by
  induction program generalizing ctx with
  | done result => exact ⟨ctx, [], result, rfl, .refl⟩
  | call request next ih =>
    obtain ⟨ctx₁, reply, hperform, hstep⟩ := h.perform_cases request
    obtain ⟨ctx₂, log, result, hrun, hsteps⟩ := ih reply (h.performs hstep)
    refine ⟨ctx₂, (request, reply) :: log, result, ?_, ?_⟩
    · rw [Program.run, hperform]
      simp only [bind, Except.bind, hrun]
    · exact (Steps.single (l := (request, reply)) hstep).trans hsteps

/-! ### Rollback -/

/-- `t'` is `t` with the pending events of `tokens` gone, `bytes` in total. -/
structure Timeline.Without {E : Type} (t : Timeline E) (tokens : List EventToken) (bytes : ℕ)
    (t' : Timeline E) : Prop where
  frame : t'.SameFrame t
  nextId : t'.nextId = t.nextId
  wf : t'.WF
  lookup : ∀ token, t'.lookup token = if token ∈ tokens then none else t.lookup token
  count : t.events.size = t'.events.size + tokens.length
  retained : t.retained.val = t'.retained.val + bytes

/-- `t'` is `t` with the events of `removed` back in place. -/
structure Timeline.With {E : Type} [Retained E] (t : Timeline (Routed E))
    (removed : List (EventToken × Routed E)) (t' : Timeline (Routed E)) : Prop where
  frame : t'.SameFrame t
  nextId : t'.nextId = t.nextId
  wf : t'.WF
  kept : ∀ {token}, token ∉ removed.map Prod.fst → t'.lookup token = t.lookup token
  back : ∀ {token routed}, (token, routed) ∈ removed →
    t'.lookup token = some ⟨routed, Retained.retainedBytes routed⟩
  retained : t'.retained.val = t.retained.val + removedBytes removed

namespace ActionContext

variable {E : Type}

theorem rollbackInserted_ok {inserted : List (EventToken × RetainedBytes)}
    {t : Timeline (Routed E)} (hwf : t.WF) (hnodup : (inserted.map Prod.fst).Nodup)
    (hpending : ∀ token bytes, (token, bytes) ∈ inserted →
      (t.lookup token).map Entry.retained = some bytes) :
    ∃ t', rollbackInserted inserted t = .ok t' ∧
      t.Without (inserted.map Prod.fst) (inserted.map fun i => i.2.val).sum t' := by
  -- on the insertions; the token of the head is gone when the rest is cancelled
  induction inserted generalizing t with
  | nil => exact ⟨t, rfl, .refl t, rfl, hwf, by simp, by simp, by simp⟩
  | cons head rest ih =>
    obtain ⟨token, bytes⟩ := head
    rw [List.map_cons, List.nodup_cons] at hnodup
    have hhead := hpending token bytes List.mem_cons_self
    rcases Timeline.cancel_cases hwf token with ⟨hnone, _⟩ | ⟨entry, t₁, hcancel, hremoves⟩
    · simp [hnone] at hhead
    have hbytes : entry.retained = bytes := by
      rw [hremoves.pending] at hhead
      exact Option.some_inj.mp hhead
    obtain ⟨t₂, hrest, hw⟩ := ih (hremoves.wf hwf) hnodup.2 fun token' bytes' hmem => by
      have hne : token' ≠ token := fun he =>
        hnodup.1 (he ▸ List.mem_map.mpr ⟨_, hmem, rfl⟩)
      rw [hremoves.lookup, if_neg hne]
      exact hpending token' bytes' (List.mem_cons_of_mem _ hmem)
    have hsize := hremoves.pending
    rw [Timeline.lookup_eq (Timeline.lookup_own hsize)] at hsize
    have hcount := hw.count
    have hretained := hw.retained
    have hremoved := hremoves.retained
    refine ⟨t₂, ?_, hw.frame.trans hremoves.frame, ?_, hw.wf, fun token' => ?_, ?_, ?_⟩
    · rw [rollbackInserted, hcancel]
      exact hrest
    · rw [hw.nextId, hremoves.result]
    · rw [hw.lookup, hremoves.lookup, List.map_cons]
      by_cases heq : token' = token
      · simp [heq]
      · simp only [List.mem_cons, heq, if_false, false_or]
    · rw [OrderedMap.size_erase hsize, List.map_cons, List.length_cons]
      rw [hremoves.result] at hcount
      simp only at hcount
      omega
    · rw [List.map_cons, List.sum_cons]
      simp only [← hbytes]
      omega

variable [Retained E]

theorem rollbackRemoved_ok {removed : List (EventToken × Routed E)} {t : Timeline (Routed E)}
    (hwf : t.WF) (hmeasure : t.measure = Retained.retainedBytes)
    (hnodup : (removed.map Prod.fst).Nodup)
    (hown : ∀ token ∈ removed.map Prod.fst, token.timeline = t.id ∧ t.now ≤ token.moment ∧
      t.lookup token = none ∧ t.Issued token.id)
    (hcount : t.events.size + removed.length ≤ t.limits.pendingEvents.get.val)
    (hbytes : t.retained.val + removedBytes removed ≤ t.limits.retainedBytes.val) :
    ∃ t', rollbackRemoved removed t = .ok t' ∧ t.With removed t' := by
  -- on the removals; restoring the head leaves the slots of the rest vacant
  induction removed generalizing t with
  | nil => exact ⟨t, rfl, .refl t, rfl, hwf, fun _ => rfl, by simp, by simp [removedBytes]⟩
  | cons head rest ih =>
    obtain ⟨token, routed⟩ := head
    rw [List.map_cons, List.nodup_cons] at hnodup
    rw [removedBytes, List.map_cons, List.sum_cons, ← removedBytes] at hbytes
    rw [List.length_cons] at hcount
    obtain ⟨htimeline, hfuture, hvacant, hissued⟩ := hown token (by simp)
    have hok : t.Restorable token routed :=
      ⟨htimeline, hfuture, by omega, by simp only at hbytes ⊢; omega, hvacant, hissued⟩
    obtain ⟨t₁, hrestore, hr⟩ := Timeline.restore_ok hok
    have hframe := hr.frame
    have hnext : t₁.nextId = t.nextId := by rw [hr.result]
    have hne : ∀ {token'}, token' ∈ rest.map Prod.fst → token' ≠ token :=
      fun hmem he => hnodup.1 (he ▸ hmem)
    have hsize : t₁.events.size = t.events.size + 1 := by
      rw [Timeline.lookup_eq htimeline] at hvacant
      rw [hr.result]
      exact OrderedMap.size_insert hvacant
    obtain ⟨t₂, hrest, hw⟩ := ih (hr.wf hok hwf hmeasure) (hframe.measure.trans hmeasure)
      hnodup.2
      (fun token' hmem => by
        obtain ⟨h1, h2, h3, h4⟩ := hown token' (List.mem_cons_of_mem _ hmem)
        refine ⟨h1.trans hframe.id.symm, ?_, ?_, ?_⟩
        · rwa [Timeline.now, hframe.clock]
        · rw [hr.lookup htimeline, if_neg (hne hmem), h3]
        · rw [Timeline.Issued, hnext]
          exact h4)
      (by rw [hframe.limits, hsize]; omega)
      (by rw [hframe.limits, hr.retained]; simp only at hbytes ⊢; omega)
    refine ⟨t₂, ?_, hw.frame.trans hframe, hw.nextId.trans hnext, hw.wf, fun {token'} hmem => ?_,
      fun {token' routed'} hmem => ?_, ?_⟩
    · rw [rollbackRemoved, hrestore]
      exact hrest
    · rw [List.map_cons, List.mem_cons, not_or] at hmem
      rw [hw.kept hmem.2, hr.lookup htimeline, if_neg hmem.1]
    · rcases List.mem_cons.mp hmem with heq | hmem
      · obtain ⟨rfl, rfl⟩ := Prod.mk.inj heq
        rw [hw.kept hnodup.1, hr.lookup htimeline, if_pos rfl]
      · exact hw.back hmem
    · rw [hw.retained, hr.retained, removedBytes, removedBytes, List.map_cons, List.sum_cons]
      simp only
      omega

end ActionContext

/-- `t'` is `t` but for the id counter, which only moved forward. -/
structure Timeline.RolledBack {E : Type} (t t' : Timeline E) : Prop where
  result : t' = { t with nextId := t'.nextId }
  issued : ∀ {id}, t.Issued id → t'.Issued id

/-- **Rollback is exact**: dropping an uncommitted context never panics and
restores everything but the id counter. -/
theorem Transaction.drop {E O : Type} [Retained E] {start ctx : ActionContext E O}
    (h : Transaction start ctx) (hopen : ctx.committed = false) :
    ∃ t, ctx.drop = .ok t ∧ start.timeline.RolledBack t ∧ t.WF := by
  have hframe := h.frame.timeline
  -- everything the action inserted goes first
  obtain ⟨t₁, hins, hwithout⟩ := ActionContext.rollbackInserted_ok h.wf ctx.inserted.nodup_keys
    fun token bytes hmem => by
      rw [OrderedMap.mem_entries] at hmem
      rw [← h.new (h.insertedNew hmem), hmem]
  have hnew : ∀ {token : EventToken}, token ∈ ctx.inserted.entries.map Prod.fst →
      ¬ start.timeline.Issued token.id := by
    intro token hmem
    obtain ⟨⟨_, bytes⟩, he, rfl⟩ := List.mem_map.mp hmem
    exact h.insertedNew (OrderedMap.mem_entries.mp he)
  have hfr := hwithout.frame.trans hframe
  have hissued : ∀ {id}, start.timeline.Issued id → t₁.Issued id := by
    intro id hid
    rw [Timeline.Issued, hwithout.nextId]
    exact h.issued hid
  have hremoved : ∀ {token : EventToken}, token ∈ ctx.removed.map Prod.fst →
      start.timeline.Issued token.id := by
    intro token hmem
    obtain ⟨⟨_, routed⟩, hr, rfl⟩ := List.mem_map.mp hmem
    obtain ⟨entry, hentry, _⟩ := h.removedOld hr
    exact h.startWF.issued hentry
  have hcount := h.count
  have hcount' := hwithout.count
  have hretained := h.retained
  have hretained' := hwithout.retained
  have htotal : (ctx.inserted.entries.map fun i => i.2.val).sum
      = ctx.inserted.total fun b => b.val := rfl
  have hsize : (ctx.inserted.entries.map Prod.fst).length = ctx.inserted.size :=
    List.length_map _
  have hlimitCount := h.startWF.count
  have hlimitBytes := h.startWF.bytes
  rw [Fin.le_def] at hlimitBytes
  -- then what it removed comes back, into room the start had
  obtain ⟨t₂, hrem, hwith⟩ := ActionContext.rollbackRemoved_ok hwithout.wf
    (hfr.measure.trans h.measure) h.removedNodup
    (fun token hmem => by
      obtain ⟨⟨_, routed⟩, hr, rfl⟩ := List.mem_map.mp hmem
      obtain ⟨entry, hentry, _⟩ := h.removedOld hr
      refine ⟨(Timeline.lookup_own hentry).trans hfr.id.symm, ?_, ?_, hissued (hremoved hmem)⟩
      · rw [Timeline.now, hfr.clock]
        exact h.startWF.future hentry
      · rw [hwithout.lookup, if_neg fun hm => hnew hm (hremoved hmem), h.old (hremoved hmem),
          if_pos hmem])
    (by rw [hfr.limits]; omega) (by rw [hfr.limits]; omega)
  -- each token has the entry it started with
  have hlookup : ∀ token, t₂.lookup token = start.timeline.lookup token := by
    intro token
    by_cases hmem : token ∈ ctx.removed.map Prod.fst
    · obtain ⟨⟨_, routed⟩, hr, rfl⟩ := List.mem_map.mp hmem
      obtain ⟨entry, hentry, rfl⟩ := h.removedOld hr
      rw [hwith.back hr, hentry, ← h.measure, ← h.startWF.measured hentry]
    · rw [hwith.kept hmem, hwithout.lookup]
      by_cases hs : start.timeline.Issued token.id
      · rw [if_neg fun hm => hnew hm hs, h.old hs, if_neg hmem]
      · -- a token the action minted is inserted or gone, and was never pending before
        have hnone : start.timeline.lookup token = none := by
          by_contra hne
          obtain ⟨entry, hentry⟩ := Option.ne_none_iff_exists'.mp hne
          exact hs (h.startWF.issued hentry)
        rw [hnone]
        split_ifs with hm
        · rfl
        · have hget : ctx.inserted.get? token = none := by
            refine OrderedMap.get?_eq_none.mpr fun e he heq => hm ?_
            exact heq ▸ List.mem_map.mpr ⟨e, he, rfl⟩
          rw [h.new hs] at hget
          exact Option.map_eq_none_iff.mp hget
  have hfinal := hwith.frame.trans hfr
  refine ⟨t₂, ?_, ⟨?_, fun {id} hid => ?_⟩, hwith.wf⟩
  · rw [ActionContext.drop, if_neg (by simp [hopen]), hins]
    exact hrem
  · have hevents := Timeline.events_ext hfinal.id hlookup
    have hbytes : t₂.retained = start.timeline.retained := by
      rw [Fin.ext_iff, hwith.retained]
      omega
    obtain ⟨hid, hclock, hlimits, hmeasure⟩ := hfinal
    cases t₂
    simp only at hid hclock hlimits hmeasure hevents hbytes
    simp [hid, hclock, hlimits, hmeasure, hevents, hbytes]
  · rw [Timeline.Issued, hwith.nextId]
    exact hissued hid

end Calandria
