/-
A timeline is a clock and an ordered schedule.

The reference `Schedule` has a clock that never stands beyond a pending event, and
an agenda whose events are numbered in order of admission and sized by their
admission-time measurements.  It has no counters of its own.

* `Schedule.exec` — one call on the reference;
* `Schedule.timeline` — the timeline with its clock, events, counters and identities;
* `exec_timeline` — each call on that timeline is the same call on the reference;
* `refines_schedule` — so is every history, with all that follows from it.
-/
import Calandria.Agenda
import Calandria.Timeline
import Calandria.TransitionSystem

namespace Calandria

namespace Timeline

variable {E : Type}

/-! ### Calls and replies -/

inductive Op (E : Type)
  | scheduleAt (moment : Moment) (event : E)
  | scheduleAfter (delay : Span) (event : E)
  | schedulePlanned (planned : Planned E)
  | cancel (token : EventToken)
  | popNext

/-- The event offered for admission. -/
def Op.offered : Op E → Option E
  | .scheduleAt _ event | .scheduleAfter _ event => some event
  | .schedulePlanned planned => some planned.outcome
  | .cancel _ | .popNext => none

inductive Reply (E : Type)
  | admission (result : Except (ScheduleError E) EventToken)
  | cancelled (result : Option E)
  | delivery (result : Option (Delivery E))

/-- A rejected event, a token that names nothing, or nothing to deliver. -/
def Reply.refused : Reply E → Bool
  | .admission (.error _) | .cancelled none | .delivery none => true
  | _ => false

def exec (t : Timeline E) : Op E → Except Panic (Timeline E × Reply E)
  | .scheduleAt moment event => do
    let (t, result) ← t.scheduleAt moment event
    .ok (t, .admission result)
  | .scheduleAfter delay event => do
    let (t, result) ← t.scheduleAfter delay event
    .ok (t, .admission result)
  | .schedulePlanned planned => do
    let (t, result) ← t.schedulePlanned planned
    .ok (t, .admission result)
  | .cancel token => do
    let (t, result) ← t.cancel token
    .ok (t, .cancelled result)
  | .popNext => do
    let (t, result) ← t.popNext
    .ok (t, .delivery result)

/-- A timeline under an arbitrary sequence of calls. -/
def system (id : TimelineId) (now : Moment) (limits : TimelineLimits)
    (measure : E → RetainedBytes) : TransitionSystem (Timeline E) (Op E × Reply E) where
  init t := t = atWithMeasure id now limits measure
  step t l t' := t.exec l.1 = .ok (t', l.2)

/-! ### The reference -/

def bounds (limits : TimelineLimits) : Agenda.Bounds :=
  ⟨limits.pendingEvents.get.val, limits.retainedBytes.val⟩

/-- The size of a pending event. -/
def bytes (entry : Entry E) : ℕ := entry.retained.val

/-- A clock, and the events that are due at or after it. -/
structure Schedule (E : Type) where
  id : TimelineId
  limits : TimelineLimits
  measure : E → RetainedBytes
  clock : Moment
  agenda : Agenda (2 ^ 64) Moment (Entry E)
  within : agenda.Within (bounds limits) bytes
  future : ∀ {k v}, agenda.pending.get? k = some v → clock ≤ (ofLex k).1
  measured : ∀ {k v}, agenda.pending.get? k = some v → v.retained = measure v.event

namespace Schedule

variable (ref : Schedule E)

/-- The sum of the admission-time measurements. -/
def retained : RetainedBytes :=
  ⟨ref.agenda.pending.total bytes, lt_of_le_of_lt ref.within.size ref.limits.retainedBytes.isLt⟩

def start (id : TimelineId) (now : Moment) (limits : TimelineLimits)
    (measure : E → RetainedBytes) : Schedule E :=
  ⟨id, limits, measure, now, .startingAt 0, .startingAt 0, nofun, nofun⟩

def failure (event : E) : Agenda.Refusal → ScheduleFailure
  | .count => .eventCapacity ref.limits.pendingEvents
  | .sizeOverflow => .retainedByteOverflow ref.retained (ref.measure event)
  | .size => .retainedByteCapacity ref.limits.retainedBytes ref.retained (ref.measure event)
  | .numbers => .eventIdsExhausted

/-- Why the schedule has no room for an event. -/
def refusal? (event : E) : Option Agenda.Refusal :=
  ref.agenda.refusal? (bounds ref.limits) bytes (ref.measure event).val

/-- Enters an event that is not due in the past. -/
def enter (moment : Moment) (event : E) (hnow : ref.clock ≤ moment)
    (h : ref.refusal? event = none) : Schedule E :=
  { ref with
    agenda := ref.agenda.admitItem moment ⟨event, ref.measure event⟩ (Agenda.next_lt h)
    within := .admitItem (show ref.agenda.refusal? (bounds ref.limits) bytes
      (bytes ⟨event, ref.measure event⟩) = none from h) (Agenda.next_lt h)
    future := fun {k v} hk => by
      change (ref.agenda.pending.insert _ _).get? k = some v at hk
      rw [OrderedMap.get?_insert] at hk
      split_ifs at hk with heq
      · rw [heq]
        exact hnow
      · exact ref.future hk
    measured := fun {k v} hk => by
      change (ref.agenda.pending.insert _ _).get? k = some v at hk
      rw [OrderedMap.get?_insert] at hk
      split_ifs at hk
      · obtain rfl := Option.some_inj.mp hk
        rfl
      · exact ref.measured hk }

/-- Takes an event off, at a moment that is not after another pending one. -/
def leave (k : Moment ×ₗ EventId) (clock : Moment)
    (hclock : ∀ {k' v}, k' ≠ k → ref.agenda.pending.get? k' = some v → clock ≤ (ofLex k').1) :
    Schedule E :=
  { ref with
    clock
    agenda := ref.agenda.remove k
    within := ref.within.remove k
    future := fun h => hclock (ref.agenda.get?_of_erase h).1 (ref.agenda.get?_of_erase h).2
    measured := fun h => ref.measured (ref.agenda.get?_of_erase h).2 }

/-- Admission of an event that is not due in the past. -/
def offer (moment : Moment) (event : E) (hnow : ref.clock ≤ moment) : Schedule E × Reply E :=
  match h : ref.refusal? event with
  | some refusal => (ref, .admission (.error ⟨event, ref.failure event refusal⟩))
  | none => (ref.enter moment event hnow h,
      .admission (.ok ⟨ref.id, ⟨ref.agenda.next, Agenda.next_lt h⟩, moment⟩))

def offerAfter (delay : Span) (event : E) : Schedule E × Reply E :=
  if h : ref.clock.val + delay.val < 2 ^ 64 then
    ref.offer ⟨ref.clock.val + delay.val, h⟩ event (Fin.le_def.mpr (Nat.le_add_right _ _))
  else (ref, .admission (.error ⟨event, .timeOverflow ref.clock delay⟩))

/-- One call on the reference. -/
def exec : Op E → Schedule E × Reply E
  | .scheduleAt moment event =>
    if h : ref.clock ≤ moment then ref.offer moment event h
    else (ref, .admission (.error ⟨event, .scheduledInPast ref.clock moment⟩))
  | .scheduleAfter delay event => ref.offerAfter delay event
  | .schedulePlanned planned => ref.offerAfter planned.delay planned.outcome
  | .cancel token =>
    match ref.agenda.pending.get? token.key with
    | some entry =>
      if token.timeline = ref.id then
        (ref.leave token.key ref.clock fun _ => ref.future, .cancelled (some entry.event))
      else (ref, .cancelled none)
    | none => (ref, .cancelled none)
  | .popNext =>
    match h : ref.agenda.pending.first? with
    | some (k, entry) =>
      (ref.leave k (ofLex k).1
          fun _ hk' => Prod.Lex.monotone_fst _ _ (OrderedMap.first?_le h hk'),
        .delivery (some ⟨⟨ref.id, (ofLex k).2, (ofLex k).1⟩, entry.event⟩))
    | none => (ref, .delivery none)

variable {ref}

theorem offer_refused {moment : Moment} {event : E} {refusal : Agenda.Refusal}
    (hnow : ref.clock ≤ moment) (h : ref.refusal? event = some refusal) :
    ref.offer moment event hnow =
      (ref, .admission (.error ⟨event, ref.failure event refusal⟩)) := by
  rw [offer]
  split
  · next refusal' h' =>
    cases h.symm.trans h'
    rfl
  · next h' => cases h.symm.trans h'

theorem offer_entered {moment : Moment} {event : E} (hnow : ref.clock ≤ moment)
    (h : ref.refusal? event = none) :
    ref.offer moment event hnow = (ref.enter moment event hnow h,
      .admission (.ok ⟨ref.id, ⟨ref.agenda.next, Agenda.next_lt h⟩, moment⟩)) := by
  rw [offer]
  split
  · next refusal h' => cases h.symm.trans h'
  · rfl

theorem exec_cancel_some {token : EventToken} {entry : Entry E} (hown : token.timeline = ref.id)
    (hget : ref.agenda.pending.get? token.key = some entry) :
    ref.exec (.cancel token) =
      (ref.leave token.key ref.clock fun _ => ref.future,
        .cancelled (some entry.event)) := by
  rw [exec]
  split
  · next entry' hget' =>
    cases hget.symm.trans hget'
    exact if_pos hown
  · next hget' => cases hget.symm.trans hget'

theorem exec_cancel_none {token : EventToken}
    (h : token.timeline ≠ ref.id ∨ ref.agenda.pending.get? token.key = none) :
    ref.exec (.cancel token) = (ref, .cancelled none) := by
  rw [exec]
  split
  · next entry hget =>
    rcases h with hown | hnone
    · exact if_neg hown
    · cases hget.symm.trans hnone
  · rfl

theorem exec_popNext_some {e : (Moment ×ₗ EventId) × Entry E}
    (h : ref.agenda.pending.first? = some e) :
    ref.exec .popNext =
      (ref.leave e.1 (ofLex e.1).1
          fun _ hk' => Prod.Lex.monotone_fst _ _ (OrderedMap.first?_le h hk'),
        .delivery (some ⟨⟨ref.id, (ofLex e.1).2, (ofLex e.1).1⟩, e.2.event⟩)) := by
  rw [exec]
  split
  · next k entry h' =>
    cases h.symm.trans h'
    rfl
  · next h' => cases h.symm.trans h'

theorem exec_popNext_none (h : ref.agenda.pending.first? = none) :
    ref.exec .popNext = (ref, .delivery none) := by
  rw [exec]
  split
  · next k entry h' => cases h.symm.trans h'
  · rfl

/-! ### The timeline of a reference -/

/-- The timeline that keeps count of what the reference implies. -/
def timeline (ref : Schedule E) : Timeline E where
  id := ref.id
  clock := ⟨ref.clock⟩
  limits := ref.limits
  measure := ref.measure
  nextId := ref.agenda.number?
  retained := ref.retained
  events := ref.agenda.pending

theorem enter_timeline {moment : Moment} {event : E} (hnow : ref.clock ≤ moment)
    (h : ref.refusal? event = none) {total : RetainedBytes}
    (htotal : total.val = ref.retained.val + (ref.measure event).val) :
    (ref.enter moment event hnow h).timeline = { ref.timeline with
      nextId := U64.checkedAdd ⟨ref.agenda.next, Agenda.next_lt h⟩ 1
      retained := total
      events := ref.agenda.pending.insert (toLex (moment, ⟨ref.agenda.next, Agenda.next_lt h⟩))
        ⟨event, ref.measure event⟩ } := by
  have hretained : (ref.enter moment event hnow h).retained = total := by
    refine Fin.ext ?_
    rw [htotal, Nat.add_comm]
    exact OrderedMap.total_insert bytes (Agenda.vacant moment (Agenda.next_lt h))
  rw [timeline, hretained]
  rfl

theorem leave_timeline {k : Moment ×ₗ EventId} {clock : Moment} {entry : Entry E}
    (hk : ref.agenda.pending.get? k = some entry)
    (hclock : ∀ {k' v}, k' ≠ k → ref.agenda.pending.get? k' = some v → clock ≤ (ofLex k').1)
    {rest : RetainedBytes} (hrest : ref.retained.val = entry.retained.val + rest.val) :
    (ref.leave k clock hclock).timeline = { ref.timeline with
      clock := ⟨clock⟩
      retained := rest
      events := ref.agenda.pending.erase k } := by
  have hretained : (ref.leave k clock hclock).retained = rest := by
    refine Fin.ext (Nat.add_left_cancel (n := bytes entry) ?_)
    exact (OrderedMap.total_erase bytes hk).symm.trans hrest
  rw [timeline, hretained]
  rfl

theorem retained_le {entry : Entry E} (hk : ∃ k, ref.agenda.pending.get? k = some entry) :
    entry.retained.val ≤ ref.retained.val := by
  obtain ⟨k, hk⟩ := hk
  show bytes entry ≤ ref.agenda.pending.total bytes
  rw [OrderedMap.total_erase bytes hk]
  exact Nat.le_add_right _ _

theorem number?_eq_some (h : ref.agenda.next < 2 ^ 64) :
    ref.timeline.nextId = some ⟨ref.agenda.next, h⟩ :=
  dif_pos h

theorem number?_eq_none (h : 2 ^ 64 ≤ ref.agenda.next) : ref.timeline.nextId = none :=
  dif_neg (not_lt.mpr h)

theorem scheduleValidated_timeline {moment : Moment} (event : E) (hnow : ref.clock ≤ moment) :
    ∃ result, ref.timeline.scheduleValidated moment event =
        .ok ((ref.offer moment event hnow).1.timeline, result) ∧
      (ref.offer moment event hnow).2 = .admission result := by
  -- the checks of the source are those of the agenda, in the same order
  cases hrefusal : ref.refusal? event with
  | some refusal =>
    rw [offer_refused hnow hrefusal]
    refine ⟨_, ?_, rfl⟩
    rw [refusal?, Agenda.refusal?] at hrefusal
    rw [scheduleValidated]
    split_ifs at hrefusal with hcount hoverflow hsize hnumbers <;> cases hrefusal
    · exact if_pos hcount
    · refine (if_neg hcount).trans ?_
      have hadd : ref.timeline.retained.checkedAdd (ref.timeline.measure event) = none :=
        U64.checkedAdd_eq_none.mpr hoverflow
      simp only [hadd]
      rfl
    · refine (if_neg hcount).trans ?_
      obtain ⟨total, hadd, htotal⟩ := U64.exists_checkedAdd (a := ref.timeline.retained)
        (b := ref.timeline.measure event) (not_le.mp hoverflow)
      simp only [hadd]
      refine if_pos (Fin.lt_def.mpr ?_)
      rw [htotal]
      exact hsize
    · refine (if_neg hcount).trans ?_
      obtain ⟨total, hadd, htotal⟩ := U64.exists_checkedAdd (a := ref.timeline.retained)
        (b := ref.timeline.measure event) (not_le.mp hoverflow)
      simp only [hadd, number?_eq_none hnumbers]
      refine if_neg ?_
      rw [Fin.lt_def, htotal]
      exact hsize
  | none =>
    rw [offer_entered hnow hrefusal]
    refine ⟨_, ?_, rfl⟩
    obtain ⟨hcount, hoverflow, hsize, hnumbers⟩ := Agenda.refusal?_eq_none.mp hrefusal
    obtain ⟨total, hadd, htotal⟩ := U64.exists_checkedAdd (a := ref.timeline.retained)
      (b := ref.timeline.measure event) hoverflow
    have hlimit : ¬ ref.timeline.limits.retainedBytes < total := by
      rw [Fin.lt_def, htotal]
      exact not_lt.mpr hsize
    have hvacant : ref.timeline.events.get? (EventToken.key ⟨ref.timeline.id, ⟨_, hnumbers⟩, moment⟩)
        = none := Agenda.vacant moment hnumbers
    rw [scheduleValidated]
    refine (if_neg (not_le.mpr hcount)).trans ?_
    simp only [hadd, if_neg hlimit, number?_eq_some hnumbers, hvacant]
    rw [enter_timeline hnow hrefusal htotal]
    rfl

theorem scheduleAfter_timeline (ref : Schedule E) (delay : Span) (event : E) :
    ∃ result, ref.timeline.scheduleAfter delay event =
        .ok ((ref.offerAfter delay event).1.timeline, result) ∧
      (ref.offerAfter delay event).2 = .admission result := by
  rw [scheduleAfter, offerAfter]
  split_ifs with hfits
  · obtain ⟨moment, hadd, hmoment⟩ := U64.exists_checkedAdd (a := ref.timeline.now) (b := delay)
      hfits
    have hval : (⟨ref.clock.val + delay.val, hfits⟩ : Moment) = moment := Fin.ext hmoment.symm
    simp only [hadd, hval]
    exact scheduleValidated_timeline _ _
  · have hadd : ref.timeline.now.checkedAdd delay = none :=
      U64.checkedAdd_eq_none.mpr (not_lt.mp hfits)
    simp only [hadd]
    exact ⟨_, rfl, rfl⟩

theorem subtractRetained_eq {current removed : RetainedBytes} (h : removed.val ≤ current.val) :
    ∃ rest, subtractRetained current removed = .ok rest ∧
      current.val = removed.val + rest.val := by
  obtain ⟨rest, hsub, hrest⟩ := U64.exists_checkedSub h
  refine ⟨rest, ?_, hrest⟩
  rw [subtractRetained, hsub]

/-- **Refinement of one call**: it returns, and is the same call on the reference. -/
theorem exec_timeline (ref : Schedule E) (op : Op E) :
    ref.timeline.exec op = .ok ((ref.exec op).1.timeline, (ref.exec op).2) := by
  cases op with
  | scheduleAt moment event =>
    rw [Timeline.exec, exec, scheduleAt]
    split_ifs with hpast hnow hnow
    · exact absurd hnow (not_le.mpr hpast)
    · rfl
    · obtain ⟨result, hresult, hreply⟩ := scheduleValidated_timeline event hnow
      rw [hresult, hreply]
      rfl
    · exact absurd (not_lt.mp hpast) hnow
  | scheduleAfter delay event =>
    obtain ⟨result, hresult, hreply⟩ := scheduleAfter_timeline ref delay event
    rw [Timeline.exec, exec, hresult, hreply]
    rfl
  | schedulePlanned planned =>
    obtain ⟨result, hresult, hreply⟩ :=
      scheduleAfter_timeline ref planned.delay planned.outcome
    rw [Timeline.exec, exec, schedulePlanned, hresult, hreply]
    rfl
  | cancel token =>
    rw [Timeline.exec]
    by_cases hown : token.timeline = ref.id
    · cases hget : ref.agenda.pending.get? token.key with
      | none =>
        have hcancel : ref.timeline.cancel token = .ok (ref.timeline, none) := by
          refine (if_neg (not_not.mpr hown)).trans ?_
          simp only [show ref.timeline.events.get? token.key = none from hget]
        rw [hcancel, exec_cancel_none (.inr hget)]
        rfl
      | some entry =>
        obtain ⟨rest, hsub, hrest⟩ := subtractRetained_eq (retained_le ⟨_, hget⟩)
        have hcancel : ref.timeline.cancel token = .ok ({ ref.timeline with
            retained := rest
            events := ref.agenda.pending.erase token.key }, some entry.event) := by
          refine (if_neg (not_not.mpr hown)).trans ?_
          simp only [show ref.timeline.events.get? token.key = some entry from hget]
          exact congrArg (Except.bind · _) hsub
        rw [hcancel, exec_cancel_some hown hget, leave_timeline hget _ hrest]
        rfl
    · have hcancel : ref.timeline.cancel token = .ok (ref.timeline, none) := if_pos hown
      rw [hcancel, exec_cancel_none (.inl hown)]
      rfl
  | popNext =>
    rw [Timeline.exec]
    cases hfirst : ref.agenda.pending.first? with
    | none =>
      have hpop : ref.timeline.popNext = .ok (ref.timeline, none) := by
        rw [popNext]
        simp only [show ref.timeline.events.first? = none from hfirst]
      rw [hpop, exec_popNext_none hfirst]
      rfl
    | some e =>
      have hget := OrderedMap.get?_first? hfirst
      obtain ⟨rest, hsub, hrest⟩ := subtractRetained_eq (retained_le ⟨_, hget⟩)
      -- the first event is not in the past, so the clock moves forward to it
      have hadvance : ref.timeline.clock.advanceTo (ofLex e.1).1 = .ok ⟨(ofLex e.1).1⟩ :=
        if_neg (not_lt.mpr (ref.future hget))
      have hpop : ref.timeline.popNext = .ok ({ ref.timeline with
          clock := ⟨(ofLex e.1).1⟩
          retained := rest
          events := ref.agenda.pending.erase e.1 }, some ⟨ref.timeline.token e.1, e.2.event⟩) := by
        rw [popNext]
        simp only [show ref.timeline.events.first? = some e from hfirst, hadvance]
        exact congrArg (Except.bind · _) hsub
      rw [hpop, exec_popNext_some hfirst, leave_timeline hget _ hrest]
      rfl

/-! ### What a call changes -/

/-- One of four things: a refusal that changes nothing, or one event that enters,
is cancelled or is delivered. -/
inductive Effect (ref : Schedule E) : Op E → Reply E → Schedule E → Prop
  | refused {op reply} (h : reply.refused = true) : Effect ref op reply ref
  | entered {op moment event} (hop : op.offered = some event) (hnow : ref.clock ≤ moment)
      (h : ref.refusal? event = none) :
      Effect ref op (.admission (.ok ⟨ref.id, ⟨ref.agenda.next, Agenda.next_lt h⟩, moment⟩))
        (ref.enter moment event hnow h)
  | cancelled {token entry} (hown : token.timeline = ref.id)
      (hget : ref.agenda.pending.get? token.key = some entry) :
      Effect ref (.cancel token) (.cancelled (some entry.event))
        (ref.leave token.key ref.clock fun _ => ref.future)
  | delivered {e} (hfirst : ref.agenda.pending.first? = some e) :
      Effect ref .popNext
        (.delivery (some ⟨⟨ref.id, (ofLex e.1).2, (ofLex e.1).1⟩, e.2.event⟩))
        (ref.leave e.1 (ofLex e.1).1
          fun _ hk' => Prod.Lex.monotone_fst _ _ (OrderedMap.first?_le hfirst hk'))

theorem offer_effect {op : Op E} {moment : Moment} {event : E} (hop : op.offered = some event)
    (hnow : ref.clock ≤ moment) :
    ref.Effect op (ref.offer moment event hnow).2 (ref.offer moment event hnow).1 := by
  cases hrefusal : ref.refusal? event with
  | some refusal =>
    rw [offer_refused hnow hrefusal]
    exact .refused rfl
  | none =>
    rw [offer_entered hnow hrefusal]
    exact .entered hop hnow hrefusal

theorem offerAfter_effect {op : Op E} {delay : Span} {event : E}
    (hop : op.offered = some event) :
    ref.Effect op (ref.offerAfter delay event).2 (ref.offerAfter delay event).1 := by
  rw [offerAfter]
  split_ifs
  · exact offer_effect hop _
  · exact .refused rfl

theorem exec_effect (ref : Schedule E) (op : Op E) :
    ref.Effect op (ref.exec op).2 (ref.exec op).1 := by
  cases op with
  | scheduleAt moment event =>
    rw [exec]
    split_ifs with hnow
    · exact offer_effect rfl hnow
    · exact .refused rfl
  | scheduleAfter delay event => exact offerAfter_effect rfl
  | schedulePlanned planned => exact offerAfter_effect rfl
  | cancel token =>
    by_cases hown : token.timeline = ref.id
    · cases hget : ref.agenda.pending.get? token.key with
      | none =>
        rw [exec_cancel_none (.inr hget)]
        exact .refused rfl
      | some entry =>
        rw [exec_cancel_some hown hget]
        exact .cancelled hown hget
    · rw [exec_cancel_none (.inl hown)]
      exact .refused rfl
  | popNext =>
    cases hfirst : ref.agenda.pending.first? with
    | none =>
      rw [exec_popNext_none hfirst]
      exact .refused rfl
    | some e =>
      rw [exec_popNext_some hfirst]
      exact .delivered hfirst

variable {op : Op E} {reply : Reply E} {ref' : Schedule E}

theorem Effect.clock_le (h : ref.Effect op reply ref') : ref.clock ≤ ref'.clock := by
  cases h with
  | delivered hfirst => exact ref.future (OrderedMap.get?_first? hfirst)
  | _ => exact le_rfl

theorem Effect.unchanged (h : ref.Effect op reply ref') (hrefused : reply.refused = true) :
    ref' = ref := by
  cases h with
  | refused _ => rfl
  | _ => cases hrefused

theorem Effect.config (h : ref.Effect op reply ref') :
    ref'.id = ref.id ∧ ref'.limits = ref.limits ∧ ref'.measure = ref.measure := by
  cases h <;> exact ⟨rfl, rfl, rfl⟩

end Schedule

/-! ### Every history -/

section

variable (measure : E → RetainedBytes)

/-- The event that a call admitted, under its key. -/
def admittedBy : Op E × Reply E → List ((Moment ×ₗ EventId) × Entry E)
  | (op, .admission (.ok token)) => op.offered.toList.map fun e => (token.key, ⟨e, measure e⟩)
  | _ => []

/-- The event that a call cancelled or delivered. -/
def leftBy : Op E × Reply E → List ((Moment ×ₗ EventId) × Entry E)
  | (.cancel token, .cancelled (some e)) => [(token.key, ⟨e, measure e⟩)]
  | (.popNext, .delivery (some d)) => [(d.token.key, ⟨d.event, measure d.event⟩)]
  | _ => []

def deliveredBy : Op E × Reply E → List (Moment ×ₗ EventId)
  | (_, .delivery (some d)) => [d.token.key]
  | _ => []

end

/-- What a history has to do with the timeline it ends in. -/
structure History (measure : E → RetainedBytes) (tr : List (Op E × Reply E)) (ref : Schedule E) :
    Prop where
  measure_eq : ref.measure = measure
  ledger : Agenda.Ledger (tr.flatMap (admittedBy measure)) (tr.flatMap (leftBy measure)) ref.agenda
  served : Agenda.Served ref.clock (tr.flatMap deliveredBy) ref.agenda

theorem admittedBy_refused (measure : E → RetainedBytes) (op : Op E) {reply : Reply E}
    (h : reply.refused = true) :
    admittedBy measure (op, reply) = [] ∧ leftBy measure (op, reply) = [] ∧
      deliveredBy (op, reply) = [] := by
  cases reply with
  | admission result => cases result <;> cases h; cases op <;> exact ⟨rfl, rfl, rfl⟩
  | cancelled result => cases result <;> cases h; cases op <;> exact ⟨rfl, rfl, rfl⟩
  | delivery result => cases result <;> cases h; cases op <;> exact ⟨rfl, rfl, rfl⟩

theorem admittedBy_entered (measure : E → RetainedBytes) {op : Op E} {event : E}
    (h : op.offered = some event) (token : EventToken) :
    admittedBy measure (op, .admission (.ok token)) = [(token.key, ⟨event, measure event⟩)] ∧
      leftBy measure (op, .admission (.ok token)) = [] := by
  refine ⟨?_, by cases op <;> rfl⟩
  rw [admittedBy, h]
  rfl

theorem Schedule.entry_eq (ref : Schedule E) {k : Moment ×ₗ EventId} {entry : Entry E}
    (h : ref.agenda.pending.get? k = some entry) :
    (⟨entry.event, ref.measure entry.event⟩ : Entry E) = entry := by
  rw [← ref.measured h]

theorem History.next {measure : E → RetainedBytes} {tr : List (Op E × Reply E)}
    {ref ref' : Schedule E} {op : Op E} {reply : Reply E} (h : History measure tr ref)
    (heffect : ref.Effect op reply ref') : History measure (tr ++ [(op, reply)]) ref' := by
  obtain ⟨rfl, hledger, hserved⟩ := h
  refine ⟨heffect.config.2.2, ?_, ?_⟩
  all_goals rw [List.flatMap_append, List.flatMap_singleton]
  · rw [List.flatMap_append, List.flatMap_singleton]
    -- what the log admits and hands back is what the agenda gained and lost
    cases heffect with
    | refused hrefused =>
      obtain ⟨hadmitted, hleft, -⟩ := admittedBy_refused ref.measure op hrefused
      rw [hadmitted, hleft, List.append_nil, List.append_nil]
      exact hledger
    | @entered _ moment event hop hnow hrefusal =>
      obtain ⟨hadmitted, hleft⟩ := admittedBy_entered ref.measure hop
        ⟨ref.id, ⟨ref.agenda.next, Agenda.next_lt hrefusal⟩, moment⟩
      rw [hadmitted, hleft, List.append_nil]
      exact hledger.admitItem moment ⟨event, ref.measure event⟩ (Agenda.next_lt hrefusal)
    | cancelled hown hget =>
      rw [leftBy, ref.entry_eq hget, show admittedBy ref.measure (Op.cancel _, _) = [] from rfl,
        List.append_nil]
      exact hledger.remove hget
    | delivered hfirst =>
      have hget := OrderedMap.get?_first? hfirst
      rw [leftBy, ref.entry_eq hget, show admittedBy ref.measure (Op.popNext, _) = [] from rfl,
        List.append_nil]
      exact hledger.remove hget
  · cases heffect with
    | refused hrefused =>
      rw [(admittedBy_refused ref.measure op hrefused).2.2, List.append_nil]
      exact hserved
    | entered hop hnow hrefusal =>
      rw [show deliveredBy (op, _) = [] from rfl, List.append_nil]
      exact hserved.admitItem hnow _ (Agenda.next_lt hrefusal)
    | cancelled hown hget =>
      rw [show deliveredBy (Op.cancel _, _) = [] from rfl, List.append_nil]
      exact hserved.remove _
    | delivered hfirst =>
      exact hserved.serve hfirst (ref.future (OrderedMap.get?_first? hfirst))

/-- The same calls on the reference. -/
def Schedule.system (id : TimelineId) (now : Moment) (limits : TimelineLimits)
    (measure : E → RetainedBytes) : TransitionSystem (Schedule E) (Op E × Reply E) where
  init ref := ref = .start id now limits measure
  step ref l ref' := ref.exec l.1 = (ref', l.2)

section

variable {id : TimelineId} {now : Moment} {limits : TimelineLimits}
  {measure : E → RetainedBytes} {tr : List (Op E × Reply E)} {t : Timeline E}

theorem run_timeline (h : (system id now limits measure).Run tr t) :
    ∃ ref, (Schedule.system id now limits measure).Run tr ref ∧ t = ref.timeline := by
  obtain ⟨_, rfl, hsteps⟩ := h
  obtain ⟨ref, hrun, heq⟩ : ∃ ref, Steps (Schedule.system id now limits measure).step
      (.start id now limits measure) tr ref ∧ t = ref.timeline := by
    refine hsteps.simulate (R := fun t ref => t = Schedule.timeline ref) ?_ rfl
    rintro _ ⟨op, reply⟩ t' ref rfl hexec
    cases (Schedule.exec_timeline ref op).symm.trans hexec
    exact ⟨_, rfl, rfl⟩
  exact ⟨ref, ⟨_, rfl, hrun⟩, heq⟩

theorem Schedule.run_history {ref : Schedule E}
    (h : (Schedule.system id now limits measure).Run tr ref) : History measure tr ref := by
  refine h.invariant (I := fun tr ref => History measure tr ref) ?_ ?_
  · rintro ref rfl
    exact ⟨rfl, .startingAt 0, .startingAt now 0⟩
  · rintro tr ref ⟨op, reply⟩ ref' _ hhistory hexec
    have heffect := ref.exec_effect op
    rw [show ref.exec op = (ref', reply) from hexec] at heffect
    exact hhistory.next heffect

/-- What holds of a timeline after a history `tr`. -/
structure Conforms (measure : E → RetainedBytes) (tr : List (Op E × Reply E)) (t : Timeline E) :
    Prop where
  /-- Every admitted event has left or is pending, and each once. -/
  balance : (tr.flatMap (admittedBy measure)).Perm
    (tr.flatMap (leftBy measure) ++ t.events.entries)
  /-- Identities are given out in order of admission, none of them twice. -/
  numbered : ((tr.flatMap (admittedBy measure)).map Agenda.number).Pairwise (· < ·)
  /-- Events are delivered by moment, and at one moment in order of admission. -/
  ordered : (tr.flatMap deliveredBy).Pairwise (· < ·)
  retained : t.retained.val = t.events.total fun entry => (measure entry.event).val
  bytes : t.retained ≤ t.limits.retainedBytes
  future : ∀ {k v}, t.events.get? k = some v → t.now ≤ (ofLex k).1

theorem total_congr {m : OrderedMap (Moment ×ₗ EventId) (Entry E)} {f g : Entry E → ℕ}
    (h : ∀ {k v}, m.get? k = some v → f v = g v) : m.total f = m.total g := by
  rw [OrderedMap.total, OrderedMap.total]
  refine congrArg List.sum (List.map_congr_left fun e he => ?_)
  exact h (OrderedMap.mem_entries.mp he)

theorem History.conforms {ref : Schedule E} (h : History measure tr ref) :
    Conforms measure tr ref.timeline where
  balance := h.ledger.balance
  numbered := h.ledger.increasing
  ordered := h.served.ordered
  retained := total_congr fun hget => by
    rw [bytes, ref.measured hget, h.measure_eq]
  bytes := ref.within.size
  future := ref.future

/-- **A timeline is an ordered schedule.**  For every identity, first moment,
limits, measurement and sequence of calls, the timeline is that of the reference
after the same calls with the same replies, and conforms to its history.  The next
call, whatever it is, returns what the reference returns; it changes nothing if it
is refused, and never moves the clock back. -/
theorem refines_schedule (h : (system id now limits measure).Run tr t) :
    ∃ ref, (Schedule.system id now limits measure).Run tr ref ∧ t = ref.timeline ∧
      Conforms measure tr t ∧
      ∀ op, ∃ ref' reply, ref.exec op = (ref', reply) ∧ t.exec op = .ok (ref'.timeline, reply) ∧
        (reply.refused = true → ref'.timeline = t) ∧ t.now ≤ ref'.timeline.now := by
  obtain ⟨ref, hrun, rfl⟩ := run_timeline h
  refine ⟨ref, hrun, rfl, (Schedule.run_history hrun).conforms, fun op => ?_⟩
  have heffect := ref.exec_effect op
  refine ⟨(ref.exec op).1, (ref.exec op).2, rfl, ref.exec_timeline op, fun hrefused => ?_,
    heffect.clock_le⟩
  exact congrArg Schedule.timeline (heffect.unchanged hrefused)

/-- Two events due at one moment, the first cancelled: the second is delivered
there, and the cancelled token is stale. -/
theorem refines_schedule_cancelled : ∃ t : Timeline ℕ,
    Conforms (fun _ => 3)
      [(.scheduleAt 5 10, .admission (.ok ⟨1, 0, 5⟩)), (.scheduleAt 5 20, .admission (.ok ⟨1, 1, 5⟩)),
        (.cancel ⟨1, 0, 5⟩, .cancelled (some 10)), (.popNext, .delivery (some ⟨⟨1, 1, 5⟩, 20⟩)),
        (.cancel ⟨1, 0, 5⟩, .cancelled none)] t := by
  let t₀ : Timeline ℕ := atWithMeasure 1 2 ⟨⟨2, by decide⟩, 6⟩ fun _ => 3
  let first : (Moment ×ₗ EventId) × Entry ℕ := (toLex (5, 0), ⟨10, 3⟩)
  let second : (Moment ×ₗ EventId) × Entry ℕ := (toLex (5, 1), ⟨20, 3⟩)
  let t₁ : Timeline ℕ := { t₀ with nextId := some 1, retained := 3, events := ⟨[first], by simp⟩ }
  let t₂ : Timeline ℕ := { t₀ with
    nextId := some 2, retained := 6, events := ⟨[first, second], by decide⟩ }
  let t₃ : Timeline ℕ := { t₀ with nextId := some 2, retained := 3, events := ⟨[second], by simp⟩ }
  let t₄ : Timeline ℕ := { t₀ with clock := ⟨5⟩, nextId := some 2, retained := 0 }
  have h1 : t₀.exec (.scheduleAt 5 10) = .ok (t₁, .admission (.ok ⟨1, 0, 5⟩)) := rfl
  have h2 : t₁.exec (.scheduleAt 5 20) = .ok (t₂, .admission (.ok ⟨1, 1, 5⟩)) := rfl
  have h3 : t₂.exec (.cancel ⟨1, 0, 5⟩) = .ok (t₃, .cancelled (some 10)) := rfl
  have h4 : t₃.exec .popNext = .ok (t₄, .delivery (some ⟨⟨1, 1, 5⟩, 20⟩)) := rfl
  have h5 : t₄.exec (.cancel ⟨1, 0, 5⟩) = .ok (t₄, .cancelled none) := rfl
  have hrun : (system 1 2 ⟨⟨2, by decide⟩, 6⟩ fun _ : ℕ => 3).Run _ t₄ :=
    (((((TransitionSystem.Run.start rfl).next (l := (_, _)) h1).next (l := (_, _)) h2).next
      (l := (_, _)) h3).next (l := (_, _)) h4).next (l := (_, _)) h5
  obtain ⟨ref, -, -, hconforms, -⟩ := refines_schedule hrun
  exact ⟨t₄, hconforms⟩

end

end Timeline

end Calandria
