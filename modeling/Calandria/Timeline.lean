/-
Bounded virtual-time event ownership.

A `Timeline` owns a virtual clock and the pending events, kept in the order in
which they are due: by moment, then by admission (`EventId`).  Every operation
of the source is a function here, with its internal panics as `Except Panic`.

`Timeline.WF` is the invariant of a timeline that was only ever used through
these operations.  Under it no operation panics, and each is one of two
changes of the pending events:

* `scheduleAt_cases` — an admission (`admit`) or a rejection that changes nothing;
* `cancel_eq` — a removal (`remove`) or nothing.
-/
import Calandria.Checks
import Calandria.OrderedMap
import Calandria.Time
import Mathlib.Data.Prod.Lex

namespace Calandria

/-- Stable identity for one event timeline. -/
abbrev TimelineId := U64

/-- Stable timeline-local identity for one scheduled event. -/
abbrev EventId := U64

/-- Exact handle for one scheduled event; `moment` is the source's `at`. -/
structure EventToken where
  timeline : TimelineId
  id : EventId
  moment : Moment
  deriving DecidableEq

/-- Tokens are ordered field by field, as `derive(Ord)` has it. -/
instance : LinearOrder EventToken :=
  LinearOrder.lift' (fun t => toLex (t.timeline, toLex (t.id, t.moment))) fun a b h => by
    cases a
    cases b
    simpa using h

/-- One owned event selected for delivery. -/
structure Delivery (E : Type) where
  token : EventToken
  event : E

/-! ### The virtual clock -/

/-- A deterministic clock with no relationship to wall time. -/
structure VirtualClock where
  now : Moment
  deriving DecidableEq

/-- Why a requested virtual-clock transition was rejected. -/
inductive ClockError
  | movesBackward (current requested : Moment)
  | overflow (current : Moment) (span : Span)
  deriving DecidableEq

namespace VirtualClock

/-- Moves time to `requested` without permitting a backward transition. -/
def advanceTo (clock : VirtualClock) (requested : Moment) : Except ClockError VirtualClock :=
  if requested < clock.now then .error (.movesBackward clock.now requested)
  else .ok { clock with now := requested }

/-- Advances virtual time by `span` with checked arithmetic. -/
def advanceBy (clock : VirtualClock) (span : Span) : Except ClockError VirtualClock :=
  match clock.now.checkedAdd span with
  | none => .error (.overflow clock.now span)
  | some requested => .ok { clock with now := requested }

end VirtualClock

/-! ### The timeline -/

/-- Hard count and retained-byte limits for one event timeline. -/
structure TimelineLimits where
  pendingEvents : NonZeroUsize
  retainedBytes : RetainedBytes
  deriving DecidableEq

/-- Why one event could not enter a timeline. -/
inductive ScheduleFailure
  | scheduledInPast (current requested : Moment)
  | timeOverflow (current : Moment) (delay : Span)
  | eventCapacity (limit : NonZeroUsize)
  | retainedByteOverflow (current event : RetainedBytes)
  | retainedByteCapacity (limit current event : RetainedBytes)
  | eventIdsExhausted
  deriving DecidableEq

/-- A rejected event and the reason. -/
structure ScheduleError (E : Type) where
  event : E
  failure : ScheduleFailure

/-- A finite delayed outcome. -/
structure Planned (T : Type) where
  delay : Span
  outcome : T

/-- A pending event beside its admission-time measurement. -/
structure Entry (E : Type) where
  event : E
  retained : RetainedBytes

/-- Deterministic virtual time plus a bounded ordered event schedule. -/
structure Timeline (E : Type) where
  id : TimelineId
  clock : VirtualClock
  limits : TimelineLimits
  measure : E → RetainedBytes
  nextId : Option U64
  retained : RetainedBytes
  events : OrderedMap (Moment ×ₗ EventId) (Entry E)

/-- The place of a token in its timeline's order. -/
def EventToken.key (token : EventToken) : Moment ×ₗ EventId := toLex (token.moment, token.id)

/-- Immutable virtual-time and pending-ownership observations. -/
structure TimelineSnapshot where
  id : TimelineId
  limits : TimelineLimits
  now : Moment
  pendingEvents : ℕ
  retainedBytes : RetainedBytes
  nextAt : Option Moment
  deriving DecidableEq

namespace Timeline

variable {E : Type}

/-- Creates an explicit-moment timeline using a retained-byte measurement. -/
def atWithMeasure (id : TimelineId) (now : Moment) (limits : TimelineLimits)
    (measure : E → RetainedBytes) : Timeline E :=
  { id, clock := ⟨now⟩, limits, measure, nextId := some 0, retained := 0, events := .empty }

/-- Current virtual time. -/
def now (t : Timeline E) : Moment := t.clock.now

/-- The earliest scheduled moment. -/
def nextAt (t : Timeline E) : Option Moment := t.events.first?.map fun e => (ofLex e.1).1

/-- The token of the event stored at a key. -/
def token (t : Timeline E) (key : Moment ×ₗ EventId) : EventToken :=
  ⟨t.id, (ofLex key).2, (ofLex key).1⟩

def snapshot (t : Timeline E) : TimelineSnapshot :=
  { id := t.id, limits := t.limits, now := t.now, pendingEvents := t.events.size,
    retainedBytes := t.retained, nextAt := t.nextAt }

/-- `schedule_validated`: admission after the requested moment was checked. -/
def scheduleValidated (t : Timeline E) (moment : Moment) (event : E) :
    Except Panic (Timeline E × Except (ScheduleError E) EventToken) :=
  if t.limits.pendingEvents.get.val ≤ t.events.size then
    .ok (t, .error ⟨event, .eventCapacity t.limits.pendingEvents⟩)
  else
    let retained := t.measure event
    match t.retained.checkedAdd retained with
    | none => .ok (t, .error ⟨event, .retainedByteOverflow t.retained retained⟩)
    | some nextRetained =>
      if t.limits.retainedBytes < nextRetained then
        .ok (t, .error ⟨event, .retainedByteCapacity t.limits.retainedBytes t.retained retained⟩)
      else
        match t.nextId with
        | none => .ok (t, .error ⟨event, .eventIdsExhausted⟩)
        | some id =>
          let token : EventToken := ⟨t.id, id, moment⟩
          match t.events.get? token.key with
          | some _ => .error .timelineIdentityCollision
          | none => .ok ({ t with
              nextId := id.checkedAdd 1
              retained := nextRetained
              events := t.events.insert token.key ⟨event, retained⟩ }, .ok token)

/-- Schedules an event at an absolute virtual moment. -/
def scheduleAt (t : Timeline E) (moment : Moment) (event : E) :
    Except Panic (Timeline E × Except (ScheduleError E) EventToken) :=
  if moment < t.now then .ok (t, .error ⟨event, .scheduledInPast t.now moment⟩)
  else t.scheduleValidated moment event

/-- Schedules an event after a relative virtual-time delay. -/
def scheduleAfter (t : Timeline E) (delay : Span) (event : E) :
    Except Panic (Timeline E × Except (ScheduleError E) EventToken) :=
  match t.now.checkedAdd delay with
  | none => .ok (t, .error ⟨event, .timeOverflow t.now delay⟩)
  | some moment => t.scheduleValidated moment event

/-- Schedules one delayed deterministic outcome. -/
def schedulePlanned (t : Timeline E) (planned : Planned E) :
    Except Panic (Timeline E × Except (ScheduleError E) EventToken) :=
  t.scheduleAfter planned.delay planned.outcome

def subtractRetained (current removed : RetainedBytes) : Except Panic RetainedBytes :=
  match current.checkedSub removed with
  | none => .error .timelineRetainedAccounting
  | some rest => .ok rest

/-- Cancels an event and returns its value when it is still pending. -/
def cancel (t : Timeline E) (token : EventToken) : Except Panic (Timeline E × Option E) :=
  if token.timeline ≠ t.id then .ok (t, none)
  else
    match t.events.get? token.key with
    | none => .ok (t, none)
    | some entry => do
      let retained ← subtractRetained t.retained entry.retained
      .ok ({ t with retained, events := t.events.erase token.key }, some entry.event)

/-- Advances to and returns exactly one event. -/
def popNext (t : Timeline E) : Except Panic (Timeline E × Option (Delivery E)) :=
  match t.events.first? with
  | none => .ok (t, none)
  | some (key, entry) =>
    match t.clock.advanceTo (ofLex key).1 with
    | .error _ => .error .timelineOrdering
    | .ok clock => do
      let retained ← subtractRetained t.retained entry.retained
      .ok ({ t with clock, retained, events := t.events.erase key },
        some ⟨t.token key, entry.event⟩)

/-! ### Lookup and rollback support for deterministic actions -/

def advanceTo (t : Timeline E) (requested : Moment) : Except Panic (Timeline E) :=
  match t.clock.advanceTo requested with
  | .error _ => .error .timelineMovesBackward
  | .ok clock => .ok { t with clock }

/-- The pending entry a token names. -/
def lookup (t : Timeline E) (token : EventToken) : Option (Entry E) :=
  if token.timeline ≠ t.id then none else t.events.get? token.key

def retainedFor (t : Timeline E) (token : EventToken) : Option RetainedBytes :=
  (t.lookup token).map Entry.retained

def event (t : Timeline E) (token : EventToken) : Option E :=
  (t.lookup token).map Entry.event

/-- The tokens of the events due exactly at a moment, in admission order. -/
def tokensAt (t : Timeline E) (moment : Moment) : List EventToken :=
  (t.events.entries.filter fun e => (ofLex e.1).1 = moment).map fun e => t.token e.1

/-- Every pending event with its token. -/
def pending (t : Timeline E) : List (EventToken × E) :=
  t.events.entries.map fun e => (t.token e.1, e.2.event)

/-- Puts a cancelled event back, with the panics its assertions raise. -/
def restore [Retained E] (t : Timeline E) (token : EventToken) (event : E) :
    Except Panic (Timeline E) :=
  if token.timeline ≠ t.id then .error .restoreForeignTimeline
  else if token.moment < t.now then .error .restoreInPast
  else if t.limits.pendingEvents.get.val ≤ t.events.size then .error .restoreCount
  else
    let retained := Retained.retainedBytes event
    match t.retained.checkedAdd retained with
    | none => .error .restoreAccounting
    | some nextRetained =>
      if t.limits.retainedBytes < nextRetained then .error .restoreBytes
      else
        match t.events.get? token.key with
        | some _ => .error .restoreOccupied
        | none => .ok { t with
            retained := nextRetained
            events := t.events.insert token.key ⟨event, retained⟩ }

/-! ### Tokens and lookups -/

theorem token_key {t : Timeline E} {token : EventToken} (h : token.timeline = t.id) :
    t.token token.key = token := by
  cases token
  simp only at h
  simp [Timeline.token, EventToken.key, h]

theorem key_inj {token token' : EventToken} (ht : token.timeline = token'.timeline)
    (hk : token.key = token'.key) : token = token' := by
  cases token
  cases token'
  simp only [EventToken.key, EmbeddingLike.apply_eq_iff_eq, Prod.mk.injEq] at hk
  simp only at ht
  simp [ht, hk]

@[simp] theorem lookup_token (t : Timeline E) (key : Moment ×ₗ EventId) :
    t.lookup (t.token key) = t.events.get? key := by
  simp [lookup, Timeline.token, EventToken.key]

theorem lookup_own {t : Timeline E} {token : EventToken} {entry : Entry E}
    (h : t.lookup token = some entry) : token.timeline = t.id := by
  by_contra hne
  simp [lookup, hne] at h

theorem lookup_eq {t : Timeline E} {token : EventToken} (h : token.timeline = t.id) :
    t.lookup token = t.events.get? token.key := by
  simp [lookup, h]

/-- Two timelines of one identity with the same lookups hold the same events. -/
theorem events_ext {t t' : Timeline E} (hid : t.id = t'.id)
    (h : ∀ token, t.lookup token = t'.lookup token) : t.events = t'.events := by
  refine OrderedMap.ext_get? fun key => ?_
  have hkey := h (t.token key)
  rwa [lookup_token, show t.token key = t'.token key by simp [Timeline.token, hid],
    lookup_token] at hkey

theorem mem_pending {t : Timeline E} {token : EventToken} {event : E} :
    (token, event) ∈ t.pending ↔ ∃ entry, t.lookup token = some entry ∧ entry.event = event := by
  simp only [pending, List.mem_map, Prod.exists, Prod.mk.injEq]
  constructor
  · rintro ⟨key, entry, hmem, rfl, rfl⟩
    exact ⟨entry, by rw [lookup_token, OrderedMap.mem_entries.mp hmem], rfl⟩
  · rintro ⟨entry, h, rfl⟩
    have hown := lookup_own h
    rw [lookup_eq hown] at h
    exact ⟨token.key, entry, OrderedMap.mem_entries.mpr h, token_key hown, rfl⟩

theorem mem_tokensAt {t : Timeline E} {token : EventToken} {moment : Moment} :
    token ∈ t.tokensAt moment ↔
      token.moment = moment ∧ ∃ entry, t.lookup token = some entry := by
  simp only [tokensAt, List.mem_map, List.mem_filter, decide_eq_true_eq, Prod.exists]
  constructor
  · rintro ⟨key, entry, ⟨hmem, rfl⟩, rfl⟩
    exact ⟨rfl, entry, by rw [lookup_token, OrderedMap.mem_entries.mp hmem]⟩
  · rintro ⟨rfl, entry, h⟩
    have hown := lookup_own h
    rw [lookup_eq hown] at h
    exact ⟨token.key, entry, ⟨OrderedMap.mem_entries.mpr h, rfl⟩, token_key hown⟩

theorem tokensAt_nodup (t : Timeline E) (moment : Moment) : (t.tokensAt moment).Nodup := by
  have hkeys : (t.events.entries.filter fun e => (ofLex e.1).1 = moment).Pairwise
      fun a b => a.1 < b.1 := t.events.sorted.filter _
  refine List.pairwise_map.mpr (hkeys.imp fun {a b} hab he => hab.ne ?_)
  simp only [Timeline.token, EventToken.mk.injEq, true_and] at he
  exact ofLex.injective (Prod.ext he.2 he.1)

theorem nextAt_eq_none {t : Timeline E} :
    t.nextAt = none ↔ ∀ token, t.lookup token = none := by
  rw [nextAt, Option.map_eq_none_iff, OrderedMap.first?_eq_none]
  constructor
  · intro h token
    by_cases hown : token.timeline = t.id
    · rw [lookup_eq hown, h]
    · simp [lookup, hown]
  · intro h key
    rw [← lookup_token, h]

theorem nextAt_spec {t : Timeline E} {moment : Moment} (h : t.nextAt = some moment) :
    (∃ token entry, t.lookup token = some entry ∧ token.moment = moment) ∧
      ∀ token entry, t.lookup token = some entry → moment ≤ token.moment := by
  obtain ⟨⟨key, entry⟩, hfirst, rfl⟩ := Option.map_eq_some_iff.mp h
  refine ⟨⟨t.token key, entry, ?_, rfl⟩, fun token entry' hlook => ?_⟩
  · rw [lookup_token, OrderedMap.get?_first? hfirst]
  · rw [lookup_eq (lookup_own hlook)] at hlook
    have hle := OrderedMap.first?_le hfirst hlook
    exact (Prod.Lex.monotone_fst _ _ hle)

/-! ### Well-formedness and the two changes of the pending events -/

/-- The identity was handed out by an earlier admission. -/
def Issued (t : Timeline E) (id : EventId) : Prop := ∀ next, t.nextId = some next → id < next

/-- The invariant of a timeline that was only used through its operations. -/
structure WF (t : Timeline E) : Prop where
  issued : ∀ {token entry}, t.lookup token = some entry → t.Issued token.id
  measured : ∀ {token entry}, t.lookup token = some entry →
    entry.retained = t.measure entry.event
  future : ∀ {token entry}, t.lookup token = some entry → t.now ≤ token.moment
  retained : t.retained.val = t.events.total fun e => e.retained.val
  bytes : t.retained ≤ t.limits.retainedBytes
  count : t.events.size ≤ t.limits.pendingEvents.get.val

/-- `t'` is `t` after the admission of `event` under `token`. -/
structure Admits (t : Timeline E) (moment : Moment) (event : E) (token : EventToken)
    (t' : Timeline E) : Prop where
  timeline : token.timeline = t.id
  moment : token.moment = moment
  fresh : t.nextId = some token.id
  count : t.events.size < t.limits.pendingEvents.get.val
  retained : t'.retained.val = t.retained.val + (t.measure event).val
  bytes : t'.retained ≤ t.limits.retainedBytes
  result : t' = { t with
    nextId := token.id.checkedAdd 1
    retained := t'.retained
    events := t.events.insert token.key ⟨event, t.measure event⟩ }

/-- `t'` is `t` after the removal of the pending `entry` of `token`. -/
structure Removes (t : Timeline E) (token : EventToken) (entry : Entry E)
    (t' : Timeline E) : Prop where
  pending : t.lookup token = some entry
  retained : t.retained.val = entry.retained.val + t'.retained.val
  result : t' = { t with retained := t'.retained, events := t.events.erase token.key }

theorem WF.vacant {t : Timeline E} (h : t.WF) {token : EventToken}
    (hfresh : t.nextId = some token.id) : t.lookup token = none := by
  by_contra hne
  obtain ⟨entry, hentry⟩ := Option.ne_none_iff_exists'.mp hne
  exact lt_irrefl _ (h.issued hentry _ hfresh)

/-- What an admission checks once the requested moment was checked. -/
def admissionChecks (t : Timeline E) (retained : RetainedBytes) : List (Check ScheduleFailure) :=
  [⟨t.limits.pendingEvents.get.val ≤ t.events.size, .eventCapacity t.limits.pendingEvents⟩,
    ⟨2 ^ 64 ≤ t.retained.val + retained.val, .retainedByteOverflow t.retained retained⟩,
    ⟨t.limits.retainedBytes.val < t.retained.val + retained.val,
      .retainedByteCapacity t.limits.retainedBytes t.retained retained⟩,
    ⟨t.nextId = none, .eventIdsExhausted⟩]

/-- What `schedule_at` checks, in its order. -/
def scheduleChecks (t : Timeline E) (moment : Moment) (retained : RetainedBytes) :
    List (Check ScheduleFailure) :=
  ⟨moment < t.now, .scheduledInPast t.now moment⟩ :: t.admissionChecks retained

/-- A checked admission fails with the first violation, and changes nothing then,
or succeeds; it never panics. -/
theorem scheduleValidated_cases {t : Timeline E} (h : t.WF) (moment : Moment) (event : E) :
    (∃ failure, firstViolation (t.admissionChecks (t.measure event)) = some failure ∧
      t.scheduleValidated moment event = .ok (t, .error ⟨event, failure⟩)) ∨
    ∃ token t', firstViolation (t.admissionChecks (t.measure event)) = none ∧
      t.scheduleValidated moment event = .ok (t', .ok token) ∧
      t.Admits moment event token t' := by
  rw [scheduleValidated, admissionChecks]
  by_cases hcount : t.limits.pendingEvents.get.val ≤ t.events.size
  · exact .inl ⟨_, firstViolation_violated hcount _ _, if_pos hcount⟩
  simp only [if_neg hcount, firstViolation_passed hcount]
  cases hadd : t.retained.checkedAdd (t.measure event) with
  | none =>
    exact .inl ⟨_, firstViolation_violated (U64.checkedAdd_eq_none.mp hadd) _ _, rfl⟩
  | some nextRetained =>
    have hsum := U64.checkedAdd_eq_some.mp hadd
    have hlt := nextRetained.isLt
    rw [← hsum, firstViolation_passed (Nat.not_le.mpr hlt)]
    by_cases hbytes : t.limits.retainedBytes < nextRetained
    · exact .inl ⟨_, firstViolation_violated (Fin.lt_def.mp hbytes) _ _, if_pos hbytes⟩
    simp only [if_neg hbytes]
    rw [firstViolation_passed (mt Fin.lt_def.mpr hbytes)]
    cases hid : t.nextId with
    | none => exact .inl ⟨_, firstViolation_violated rfl _ _, rfl⟩
    | some id =>
      have hvac : t.lookup ⟨t.id, id, moment⟩ = none := h.vacant hid
      rw [lookup_eq rfl] at hvac
      simp only [hvac]
      exact .inr ⟨_, _, firstViolation_passed nofun _ _, rfl, rfl, rfl, hid, not_le.mp hcount,
        hsum, not_lt.mp hbytes, rfl⟩

theorem scheduleAt_cases {t : Timeline E} (h : t.WF) (moment : Moment) (event : E) :
    (∃ failure, firstViolation (t.scheduleChecks moment (t.measure event)) = some failure ∧
      t.scheduleAt moment event = .ok (t, .error ⟨event, failure⟩)) ∨
    ∃ token t', firstViolation (t.scheduleChecks moment (t.measure event)) = none ∧
      t.scheduleAt moment event = .ok (t', .ok token) ∧
      t.Admits moment event token t' ∧ t.now ≤ moment := by
  rw [scheduleAt, scheduleChecks]
  by_cases hpast : moment < t.now
  · exact .inl ⟨_, firstViolation_violated hpast _ _, if_pos hpast⟩
  · rw [if_neg hpast, firstViolation_passed hpast]
    exact (scheduleValidated_cases h moment event).imp_right
      fun ⟨token, t', hpassed, ht', had⟩ => ⟨token, t', hpassed, ht', had, not_lt.mp hpast⟩

theorem WF.retained_le {t : Timeline E} (h : t.WF) {token : EventToken} {entry : Entry E}
    (hp : t.lookup token = some entry) : entry.retained.val ≤ t.retained.val := by
  rw [lookup_eq (lookup_own hp)] at hp
  rw [h.retained, OrderedMap.total_erase _ hp]
  exact Nat.le_add_right _ _

/-- A cancellation removes what the token names; it never panics. -/
theorem cancel_cases {t : Timeline E} (h : t.WF) (token : EventToken) :
    (t.lookup token = none ∧ t.cancel token = .ok (t, none)) ∨
    ∃ entry t', t.cancel token = .ok (t', some entry.event) ∧ t.Removes token entry t' := by
  by_cases hown : token.timeline = t.id
  · cases hget : t.events.get? token.key with
    | none => exact .inl ⟨by rw [lookup_eq hown, hget], by simp [cancel, hown, hget]⟩
    | some entry =>
      have hp : t.lookup token = some entry := by rw [lookup_eq hown, hget]
      have hle := h.retained_le hp
      have hlt := t.retained.isLt
      have hsub : t.retained.checkedSub entry.retained
          = some ⟨t.retained.val - entry.retained.val, by omega⟩ :=
        U64.checkedSub_eq_some.mpr (by simp only; omega)
      refine .inr ⟨entry, { t with
        retained := ⟨t.retained.val - entry.retained.val, by omega⟩
        events := t.events.erase token.key }, ?_, hp, ?_, rfl⟩
      · rw [cancel, if_neg (not_not.mpr hown)]
        simp only [hget, subtractRetained, hsub]
        rfl
      · simp only
        omega
  · exact .inl ⟨by simp [lookup, hown], by simp [cancel, hown]⟩

/-! ### What the changes do to lookups and to the invariant -/

theorem lookup_insert {t t' : Timeline E} {token : EventToken} {entry : Entry E}
    (hid : t'.id = t.id) (hown : token.timeline = t.id)
    (hev : t'.events = t.events.insert token.key entry) (token' : EventToken) :
    t'.lookup token' = if token' = token then some entry else t.lookup token' := by
  by_cases hown' : token'.timeline = t.id
  · rw [lookup_eq (hown'.trans hid.symm), lookup_eq hown', hev, OrderedMap.get?_insert]
    have hiff : token'.key = token.key ↔ token' = token :=
      ⟨key_inj (hown'.trans hown.symm), congrArg _⟩
    simp only [hiff]
  · have hne : token' ≠ token := fun he => hown' (he ▸ hown)
    rw [if_neg hne]
    simp [lookup, hid, hown']

theorem lookup_erase {t t' : Timeline E} {token : EventToken}
    (hid : t'.id = t.id) (hown : token.timeline = t.id)
    (hev : t'.events = t.events.erase token.key) (token' : EventToken) :
    t'.lookup token' = if token' = token then none else t.lookup token' := by
  by_cases hown' : token'.timeline = t.id
  · rw [lookup_eq (hown'.trans hid.symm), lookup_eq hown', hev, OrderedMap.get?_erase]
    have hiff : token'.key = token.key ↔ token' = token :=
      ⟨key_inj (hown'.trans hown.symm), congrArg _⟩
    simp only [hiff]
  · have hne : token' ≠ token := fun he => hown' (he ▸ hown)
    rw [if_neg hne]
    simp [lookup, hid, hown']

theorem Admits.lookup {t t' : Timeline E} {moment : Moment} {event : E} {token : EventToken}
    (h : t.Admits moment event token t') (token' : EventToken) :
    t'.lookup token' =
      if token' = token then some ⟨event, t.measure event⟩ else t.lookup token' :=
  lookup_insert (by rw [h.result]) h.timeline (by rw [h.result]) token'

theorem Removes.lookup {t t' : Timeline E} {token : EventToken} {entry : Entry E}
    (h : t.Removes token entry t') (token' : EventToken) :
    t'.lookup token' = if token' = token then none else t.lookup token' :=
  lookup_erase (by rw [h.result]) (lookup_own h.pending) (by rw [h.result]) token'

theorem Admits.issued {t t' : Timeline E} {moment : Moment} {event : E} {token : EventToken}
    (h : t.Admits moment event token t') {id : EventId} (hid : t.Issued id ∨ id = token.id) :
    t'.Issued id := by
  intro next hnext
  rw [h.result] at hnext
  have hval := U64.checkedAdd_eq_some.mp hnext
  have hone : (1 : U64).val = 1 := rfl
  rw [Fin.lt_def, hval, hone]
  rcases hid with hid | rfl
  · have := hid _ h.fresh
    rw [Fin.lt_def] at this
    omega
  · omega

theorem Admits.not_issued {t t' : Timeline E} {moment : Moment} {event : E} {token : EventToken}
    (h : t.Admits moment event token t') : ¬ t.Issued token.id :=
  fun hid => lt_irrefl _ (hid _ h.fresh)

theorem Removes.issued {t t' : Timeline E} {token : EventToken} {entry : Entry E}
    (h : t.Removes token entry t') {id : EventId} : t'.Issued id ↔ t.Issued id := by
  rw [Issued, h.result, Issued]

theorem Admits.wf {t t' : Timeline E} {moment : Moment} {event : E} {token : EventToken}
    (h : t.Admits moment event token t') (hwf : t.WF) (hnow : t.now ≤ moment) : t'.WF := by
  have hvac := hwf.vacant h.fresh
  rw [lookup_eq h.timeline] at hvac
  have hmeasure : t'.measure = t.measure := by rw [h.result]
  have hclock : t'.now = t.now := by rw [h.result]; rfl
  have hev : t'.events = t.events.insert token.key ⟨event, t.measure event⟩ := by rw [h.result]
  have hlimits : t'.limits = t.limits := by rw [h.result]
  -- every pending event is the new one or was pending before
  refine ⟨fun {token' entry} hl => ?_, fun {token' entry} hl => ?_, fun {token' entry} hl => ?_,
    ?_, ?_, ?_⟩
  · rw [h.lookup] at hl
    split_ifs at hl with heq
    · exact h.issued (.inr (heq ▸ rfl))
    · exact h.issued (.inl (hwf.issued hl))
  · rw [h.lookup] at hl
    split_ifs at hl with heq
    · obtain rfl := Option.some_inj.mp hl
      rw [hmeasure]
    · rw [hmeasure, hwf.measured hl]
  · rw [h.lookup] at hl
    split_ifs at hl with heq
    · rw [hclock, heq, h.moment]
      exact hnow
    · exact hclock ▸ hwf.future hl
  · rw [h.retained, hev, OrderedMap.total_insert _ hvac, hwf.retained, Nat.add_comm]
  · exact hlimits ▸ h.bytes
  · have := h.count
    rw [hev, OrderedMap.size_insert hvac, hlimits]
    omega

theorem Removes.wf {t t' : Timeline E} {token : EventToken} {entry : Entry E}
    (h : t.Removes token entry t') (hwf : t.WF) : t'.WF := by
  have hp := h.pending
  rw [lookup_eq (lookup_own hp)] at hp
  have hmeasure : t'.measure = t.measure := by rw [h.result]
  have hclock : t'.now = t.now := by rw [h.result]; rfl
  have hev : t'.events = t.events.erase token.key := by rw [h.result]
  have hlimits : t'.limits = t.limits := by rw [h.result]
  have hold : ∀ {token' entry'}, t'.lookup token' = some entry' → t.lookup token' = some entry' := by
    intro token' entry' hl
    rw [h.lookup] at hl
    split_ifs at hl
    exact hl
  refine ⟨fun hl => h.issued.mpr (hwf.issued (hold hl)), fun hl => ?_, fun hl => ?_, ?_, ?_, ?_⟩
  · rw [hmeasure, hwf.measured (hold hl)]
  · exact hclock ▸ hwf.future (hold hl)
  · have htotal := hwf.retained
    rw [OrderedMap.total_erase _ hp, h.retained] at htotal
    rw [hev]
    omega
  · have hle := h.retained
    have hb := hwf.bytes
    rw [Fin.le_def] at hb ⊢
    rw [hlimits]
    omega
  · have hsize := OrderedMap.size_erase hp
    have hcount := hwf.count
    rw [hev, hlimits]
    omega

theorem Admits.pending_perm {t t' : Timeline E} {moment : Moment} {event : E} {token : EventToken}
    (h : t.Admits moment event token t') (hwf : t.WF) :
    t'.pending.Perm ((token, event) :: t.pending) := by
  have hvac := hwf.vacant h.fresh
  rw [lookup_eq h.timeline] at hvac
  have hperm := (OrderedMap.insert_perm (v := (⟨event, t.measure event⟩ : Entry E)) hvac).map
    fun e => (t.token e.1, e.2.event)
  rw [List.map_cons, token_key h.timeline] at hperm
  rw [h.result]
  exact hperm

theorem Removes.pending_perm {t t' : Timeline E} {token : EventToken} {entry : Entry E}
    (h : t.Removes token entry t') : t.pending.Perm ((token, entry.event) :: t'.pending) := by
  have hp := h.pending
  rw [lookup_eq (lookup_own hp)] at hp
  have hperm := (OrderedMap.erase_perm hp).map fun e => (t.token e.1, e.2.event)
  rw [List.map_cons, token_key (lookup_own h.pending)] at hperm
  rw [h.result]
  exact hperm

theorem pending_nodup (t : Timeline E) : (t.pending.map Prod.fst).Nodup := by
  rw [pending, List.map_map]
  refine List.pairwise_map.mpr (t.events.sorted.imp fun {a b} hab he => hab.ne ?_)
  simp only [Function.comp, Timeline.token, EventToken.mk.injEq, true_and] at he
  exact ofLex.injective (Prod.ext he.2 he.1)

theorem atWithMeasure_wf (id : TimelineId) (now : Moment) (limits : TimelineLimits)
    (measure : E → RetainedBytes) : (atWithMeasure id now limits measure).WF := by
  have hnone : ∀ token, (atWithMeasure id now limits measure).lookup token = none := by
    intro token
    rw [Timeline.lookup]
    exact ite_self _
  refine ⟨fun hl => ?_, fun hl => ?_, fun hl => ?_, rfl, Fin.zero_le _, Nat.zero_le _⟩ <;>
    simp [hnone] at hl

end Timeline

end Calandria
