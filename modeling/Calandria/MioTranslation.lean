/-
The translation between resources and backend tokens.

* `Registrations.WF` — the vector is ordered by backend token, every one of them
  issued and none of them zero, and names no resource twice;
* `Changes` — what one operation does to the registrations (`exec_changes`: no
  assertion fails);
* `History` — no backend token is handed out twice in a run, and each registration
  is of the resource its token was handed out for;
* `observe_all` — what a poll delivers, and what it counts;
* `mio_translation` — these, for every run.
-/
import Calandria.MioPoller

namespace Calandria

variable {X : Type}

namespace Registrations

/-- The backend token was handed out before. -/
def Issued (registrations : Registrations) (backend : BackendToken) : Prop :=
  ∀ next, registrations.nextBackend = some next → backend < next

/-- The invariant of the registrations. -/
structure WF (registrations : Registrations) : Prop where
  sorted : registrations.entries.Pairwise fun a b => a.backend < b.backend
  resources : (registrations.entries.map Registration.resource).Nodup
  issued : ∀ entry ∈ registrations.entries,
    wakeToken < entry.backend ∧ registrations.Issued entry.backend
  room : registrations.entries.length ≤ registrations.limits.registrations.get.val
  next : ∀ next, registrations.nextBackend = some next → wakeToken < next

theorem WF.new (limits : MioPollerLimits) : (Registrations.new limits).WF :=
  ⟨.nil, .nil, nofun, Nat.zero_le _, fun next hnext => by
    obtain rfl := Option.some_inj.mp hnext
    decide⟩

variable {self : Registrations}

/-- No two registrations share a backend token. -/
theorem WF.backend_inj (h : self.WF) {a b : Registration} (ha : a ∈ self.entries)
    (hb : b ∈ self.entries) (hab : a.backend = b.backend) : a = b := by
  have hnodup : (self.entries.map Registration.backend).Nodup :=
    List.pairwise_map.mpr (h.sorted.imp ne_of_lt)
  exact List.inj_on_of_nodup_map hnodup ha hb hab

theorem WF.resource_inj (h : self.WF) {a b : Registration} (ha : a ∈ self.entries)
    (hb : b ∈ self.entries) (hab : a.resource = b.resource) : a = b :=
  List.inj_on_of_nodup_map h.resources ha hb hab

/-- The binary search finds exactly the registration of a backend token. -/
theorem WF.resource_eq_some (h : self.WF) {backend : BackendToken} {token : ResourceToken} :
    self.resource backend = some token ↔ ⟨token, backend⟩ ∈ self.entries := by
  rw [Registrations.resource]
  constructor
  · intro hfound
    split at hfound
    · cases hfound
    · next index hsearch =>
      obtain ⟨entry, hentry, hequal⟩ := binarySearch_sound hsearch
      rw [hentry] at hfound
      obtain rfl := Option.some_inj.mp hfound
      obtain rfl := compare_eq_iff_eq.mp hequal
      exact List.mem_of_getElem? hentry
  · intro hmem
    have hsome := binarySearch_complete (Rising.of_lt Registration.backend backend h.sorted) hmem
      (compare_eq_iff_eq.mpr rfl)
    obtain ⟨index, hsearch⟩ := Option.isSome_iff_exists.mp hsome
    obtain ⟨entry, hentry, hequal⟩ := binarySearch_sound hsearch
    obtain rfl := h.backend_inj (List.mem_of_getElem? hentry) hmem (compare_eq_iff_eq.mp hequal)
    rw [hsearch]
    simp only [hentry]
    rfl

theorem WF.resource_eq_none (h : self.WF) {backend : BackendToken} :
    self.resource backend = none ↔ ∀ entry ∈ self.entries, entry.backend ≠ backend := by
  rw [Option.eq_none_iff_forall_ne_some]
  constructor
  · rintro hnone entry hmem rfl
    exact hnone entry.resource (h.resource_eq_some.mpr hmem)
  · intro hnone token hsome
    exact hnone _ (h.resource_eq_some.mp hsome) rfl

theorem WF.backend_eq_ok (h : self.WF) {backend : BackendToken} {token : ResourceToken} :
    self.backend (X := X) token = .ok backend ↔ ⟨token, backend⟩ ∈ self.entries := by
  rw [Registrations.backend]
  cases hfind : self.entries.find? fun entry => entry.resource = token with
  | none =>
    refine iff_of_false nofun fun hmem => ?_
    exact List.find?_eq_none.mp hfind _ hmem (by simp)
  | some entry =>
    have hmem := List.mem_of_find?_eq_some hfind
    have htoken : entry.resource = token := by simpa using List.find?_some hfind
    constructor
    · intro hok
      obtain rfl := Except.ok.inj hok
      obtain rfl := htoken
      exact hmem
    · intro hmem'
      rw [h.resource_inj hmem hmem' htoken]

theorem contains_iff {token : ResourceToken} :
    self.contains token = true ↔ ∃ entry ∈ self.entries, entry.resource = token := by
  simp [contains]

/-- What a polled event becomes: a wake, an event of the resource that is registered
under its token, or nothing. -/
def translated (registrations : Registrations) (event : BackendEvent) : Option PollEvent :=
  if event.token = wakeToken then some .wake
  else (registrations.entries.find? fun entry => entry.backend = event.token).map
    fun entry => .resource entry.resource event.readiness

theorem WF.translated_eq (h : self.WF) {event : BackendEvent} (hwake : event.token ≠ wakeToken) :
    self.translated event
      = (self.resource event.token).map fun token => .resource token event.readiness := by
  rw [translated, if_neg hwake]
  cases hfind : self.entries.find? fun entry => entry.backend = event.token with
  | none =>
    rw [h.resource_eq_none.mpr fun entry hmem => by
      simpa using List.find?_eq_none.mp hfind entry hmem]
    rfl
  | some entry =>
    have hbackend : entry.backend = event.token := by simpa using List.find?_some hfind
    have hmem : ⟨entry.resource, event.token⟩ ∈ self.entries := by
      rw [← hbackend]
      exact List.mem_of_find?_eq_some hfind
    rw [h.resource_eq_some.mpr hmem]
    rfl

end Registrations

theorem PollReport.new_ok {delivered wakes stale : ℕ} (saturated : Bool)
    (hwakes : wakes ≤ delivered) (hfits : ¬ 2 ^ 64 ≤ delivered + stale) :
    PollReport.new delivered wakes stale saturated
      = .ok ⟨delivered + stale, delivered, wakes, stale, saturated⟩ := by
  rw [PollReport.new, if_neg (not_not.mpr hwakes), if_neg hfits]

namespace MioPoller

/-! ### One poll -/

section

variable {self : MioPoller}

theorem incrementCount_ok {count : ℕ} (h : count + 1 < 2 ^ 64) :
    incrementCount count = .ok (count + 1) :=
  if_neg (Nat.not_le.mpr h)

theorem deliver_ok {state : Observation} (event : PollEvent)
    (h : state.destination.events.length < state.destination.capacity.get.val) :
    deliver state event = .ok { state with destination := { state.destination with
      events := state.destination.events ++ [event] } } := by
  rw [deliver, PollEvents.tryPush, if_neg (Nat.not_le.mpr h)]

/-- The counts of a poll in progress. -/
structure Observation.Sound (state : Observation) (left : ℕ) : Prop where
  room : state.destination.events.length + left ≤ state.destination.capacity.get.val
  observed : state.observed + left < 2 ^ 64
  wakes : state.wakes ≤ state.observed
  stale : state.stale ≤ state.observed

/-- What one event adds to a poll in progress. -/
def Observation.add (state : Observation) (registrations : Registrations)
    (event : BackendEvent) : Observation where
  destination := { state.destination with
    events := state.destination.events ++ (registrations.translated event).toList }
  observed := state.observed + 1
  wakes := state.wakes + if event.token = wakeToken then 1 else 0
  stale := state.stale + if registrations.translated event = none then 1 else 0

theorem observe_ok (h : self.registrations.WF) {state : Observation} {event : BackendEvent}
    {left : ℕ} (hs : state.Sound (left + 1)) :
    self.observe state event = .ok (state.add self.registrations event) ∧
      (state.add self.registrations event).Sound left := by
  obtain ⟨hroom, hobserved, hwakes, hstale⟩ := hs
  have hlength : (self.registrations.translated event).toList.length ≤ 1 := by
    cases self.registrations.translated event <;> simp
  refine ⟨?_, ?_, ?_, ?_, ?_⟩
  · rw [observe, incrementCount_ok (by omega)]
    -- the wake, a registered resource, or a stale token: each counts one more at most
    by_cases hwake : event.token = wakeToken
    · have htranslated : self.registrations.translated event = some .wake := if_pos hwake
      simp only [bind, Except.bind, if_pos hwake, incrementCount_ok (show state.wakes + 1 < _ by omega)]
      rw [deliver_ok, Observation.add, htranslated, if_pos hwake]
      · rfl
      · simp only
        omega
    · have htranslated := h.translated_eq hwake
      simp only [bind, Except.bind, if_neg hwake]
      cases hresource : self.registrations.resource event.token with
      | some token =>
        rw [hresource] at htranslated
        simp only
        rw [deliver_ok, Observation.add, htranslated, if_neg hwake]
        · rfl
        · simp only
          omega
      | none =>
        rw [hresource] at htranslated
        simp only [incrementCount_ok (show state.stale + 1 < _ by omega)]
        rw [Observation.add, htranslated, if_neg hwake]
        simp
  · simp only [Observation.add, List.length_append]
    omega
  · simp only [Observation.add]
    omega
  · simp only [Observation.add]
    split_ifs <;> omega
  · simp only [Observation.add]
    split_ifs <;> omega

/-- **A whole batch**: the events that are translated, in order, and the counts. -/
theorem observe_all (h : self.registrations.WF) {events : List BackendEvent} {state : Observation}
    (hs : state.Sound events.length) :
    ∃ state', events.foldlM self.observe state = .ok state' ∧
      state'.destination = { state.destination with
        events := state.destination.events ++ events.filterMap self.registrations.translated } ∧
      state'.observed = state.observed + events.length ∧
      state'.wakes = state.wakes + events.countP (·.token = wakeToken) ∧
      state'.stale = state.stale + events.countP (self.registrations.translated · = none) := by
  -- on the batch; each event uses up one of the room that is left
  induction events generalizing state with
  | nil => exact ⟨state, rfl, by simp, rfl, rfl, rfl⟩
  | cons event events ih =>
    obtain ⟨hobserve, hnext⟩ : self.observe state event = .ok _ ∧ _ := observe_ok h hs
    obtain ⟨state', hrest, hdestination, hobserved, hwakes, hstale⟩ := ih hnext
    refine ⟨state', ?_, ?_, ?_, ?_, ?_⟩
    · rw [List.foldlM_cons, hobserve]
      exact hrest
    · rw [hdestination]
      cases htranslated : self.registrations.translated event <;>
        simp [Observation.add, htranslated]
    · rw [hobserved, List.length_cons]
      simp only [Observation.add]
      omega
    · rw [hwakes, List.countP_cons]
      simp only [Observation.add, decide_eq_true_eq]
      omega
    · rw [hstale, List.countP_cons]
      simp only [Observation.add, decide_eq_true_eq]
      omega

/-- The report of a poll over `events`. -/
def reportFor (self : MioPoller) (events : List BackendEvent) : PollReport where
  observed := events.length
  delivered := (events.filterMap self.registrations.translated).length
  wakes := events.countP (·.token = wakeToken)
  stale := events.countP (self.registrations.translated · = none)
  saturated := self.limits.events.get.val ≤ events.length

/-- Every event is delivered or stale, and a wake is delivered. -/
theorem reportFor_adds_up (self : MioPoller) (events : List BackendEvent) :
    (self.reportFor events).wakes ≤ (self.reportFor events).delivered ∧
      (self.reportFor events).delivered + (self.reportFor events).stale = events.length := by
  simp only [reportFor, List.length_filterMap_eq_countP]
  constructor
  · refine List.countP_mono_left fun event _ hwake => ?_
    rw [Registrations.translated, if_pos (by simpa using hwake)]
    rfl
  · have hall := List.length_eq_countP_add_countP
      (fun event => (self.registrations.translated event).isSome) (l := events)
    rw [hall]
    congr 1
    refine List.countP_congr fun event _ => ?_
    cases self.registrations.translated event <;> simp

/-- **A poll within the batch limit**, into a destination with room for it. -/
theorem pollOnce_ok (h : self.registrations.WF) {events : List BackendEvent}
    {destination : PollEvents} (hbounded : events.length ≤ self.limits.events.get.val)
    (hroom : self.limits.events.get ≤ destination.capacity.get) :
    self.pollOnce (X := X) destination (.ok events)
      = .ok ({ destination with events := events.filterMap self.registrations.translated },
        .ok (self.reportFor events)) := by
  have hlt := self.limits.events.get.isLt
  have hle := Fin.le_def.mp hroom
  have hs : Observation.Sound ⟨destination.clear, 0, 0, 0⟩ events.length := by
    refine ⟨?_, ?_, le_rfl, le_rfl⟩
    · simp only [PollEvents.clear, List.length_nil]
      omega
    · simp only
      omega
  obtain ⟨state, hrun, hdestination, hobserved, hwakes, hstale⟩ := observe_all h hs
  obtain ⟨hdelivered, hsum⟩ := reportFor_adds_up self events
  simp only [PollEvents.clear, List.nil_append, Nat.zero_add] at hdestination hobserved hwakes hstale
  rw [pollOnce, if_neg (show ¬ destination.clear.capacity.get < self.limits.events.get from
    not_lt.mpr hroom)]
  simp only [bind, Except.bind, hrun]
  have hfits : ¬ 2 ^ 64 ≤ (self.reportFor events).delivered + (self.reportFor events).stale := by
    omega
  -- the counts add up to the batch, so the report passes its assertions
  have hnew := PollReport.new_ok (self.limits.events.get.val ≤ events.length) hdelivered hfits
  rw [hsum] at hnew
  have hreport : PollReport.new state.destination.events.length state.wakes state.stale
      (self.limits.events.get.val ≤ state.observed) = .ok (self.reportFor events) := by
    rw [hdestination, hwakes, hstale, hobserved]
    exact hnew
  rw [hreport, hdestination]

end

/-! ### What an operation changes -/

/-- Everything an operation can do to the registrations. -/
inductive Changes (self : MioPoller) : Op X → Reply X → MioPoller → Prop
  /-- Refused before Mio is asked. -/
  | rejected {op error} : (∀ destination polled, op ≠ .poll destination polled) →
      Changes self op (.changed [] (.error error)) self
  /-- Mio refuses the registration: its backend token is spent. -/
  | refused {token interest backend flags source} :
      self.registrations.nextBackend = some backend →
      Changes self (.register token interest (.error source))
        (.changed [.register backend flags] (.error (.io source)))
        ⟨{ self.registrations with nextBackend := backend.checkedAdd 1 }⟩
  | registered {token interest backend flags} :
      self.registrations.nextBackend = some backend →
      (∀ entry ∈ self.registrations.entries, entry.resource ≠ token) →
      self.registrations.entries.length < self.limits.registrations.get.val →
      Changes self (.register token interest (.ok ()))
        (.changed [.register backend flags] (.ok ()))
        ⟨{ self.registrations with
          nextBackend := backend.checkedAdd 1
          entries := self.registrations.entries ++ [⟨token, backend⟩] }⟩
  /-- A change of interest, accepted or refused, under the resource's own token. -/
  | reregistered {token interest registry backend flags result} :
      ⟨token, backend⟩ ∈ self.registrations.entries →
      Changes self (.reregister token interest registry)
        (.changed [.reregister backend flags] result) self
  | unremoved {token source} : Changes self (.deregister token (.error source))
      (.changed [.deregister] (.error (.io source))) self
  | deregistered {token backend before after} :
      self.registrations.entries = before ++ ⟨token, backend⟩ :: after →
      Changes self (.deregister token (.ok ())) (.changed [.deregister] (.ok ()))
        ⟨{ self.registrations with entries := before ++ after }⟩
  | polled {destination polled destination' result} :
      Changes self (.poll destination polled) (.polled destination' result) self

section

variable {self : MioPoller}

/-- A registration that Mio accepts passes the assertions. -/
theorem commit_ok {registrations : Registrations} (h : registrations.WF) {token : ResourceToken}
    {backend : BackendToken} (hnext : registrations.nextBackend = some backend)
    (hcontains : registrations.contains token = false)
    (hroom : registrations.entries.length < registrations.limits.registrations.get.val) :
    ({ registrations with nextBackend := backend.checkedAdd 1 } : Registrations).commit token backend
      = .ok { registrations with
        nextBackend := backend.checkedAdd 1
        entries := registrations.entries ++ [⟨token, backend⟩] } := by
  -- the next token is above all registered ones, so it is vacant and goes last
  have hbelow : ∀ entry ∈ registrations.entries, entry.backend < backend :=
    fun entry hmem => (h.issued entry hmem).2 backend hnext
  have hvacant : registrations.resource backend = none :=
    h.resource_eq_none.mpr fun entry hmem => (hbelow entry hmem).ne
  have hfree : (({ registrations with nextBackend := backend.checkedAdd 1 } : Registrations).contains
      token || (({ registrations with nextBackend := backend.checkedAdd 1 } :
        Registrations).resource backend).isSome) = false := by
    show (registrations.contains token || (registrations.resource backend).isSome) = false
    rw [hcontains, hvacant]
    rfl
  have hlast : (registrations.entries.getLast?.any fun entry => backend ≤ entry.backend) = false := by
    cases hlast : registrations.entries.getLast? with
    | none => rfl
    | some entry =>
      have hlt := hbelow entry (List.mem_of_getLast? hlast)
      simpa using hlt
  rw [Registrations.commit, hfree, if_neg Bool.false_ne_true, if_neg (not_not.mpr hroom), hlast,
    if_neg Bool.false_ne_true]

theorem register_changes (os : TargetOs) (h : self.registrations.WF) (token : ResourceToken)
    (interest : Interest) (registry : Except X Unit) :
    ∃ self' calls result, self.register os token interest registry = .ok (self', calls, result) ∧
      Changes self (.register token interest registry) (.changed calls result) self' := by
  -- the checks in the order of the source; only the last one hands a token to Mio
  rw [register]
  cases interest.intoMioInterest (X := X) os with
  | error error => exact ⟨_, _, _, rfl, .rejected nofun⟩
  | ok flags =>
    dsimp only
    rw [Registrations.reserve]
    by_cases hcontains : self.registrations.contains token = true
    · rw [if_pos hcontains]
      exact ⟨_, _, _, rfl, .rejected nofun⟩
    rw [if_neg hcontains]
    by_cases hfull : self.registrations.limits.registrations.get.val
        ≤ self.registrations.entries.length
    · rw [if_pos hfull]
      exact ⟨_, _, _, rfl, .rejected nofun⟩
    rw [if_neg hfull]
    cases hnext : self.registrations.nextBackend with
    | none => exact ⟨_, _, _, rfl, .rejected nofun⟩
    | some backend =>
      cases registry with
      | error source => exact ⟨_, _, _, rfl, .refused hnext⟩
      | ok =>
        have hcontains' : self.registrations.contains token = false := by simpa using hcontains
        have hnew : ∀ entry ∈ self.registrations.entries, entry.resource ≠ token :=
          fun entry hmem heq => hcontains (Registrations.contains_iff.mpr ⟨entry, hmem, heq⟩)
        have hcommit := commit_ok h hnext hcontains' (Nat.not_le.mp hfull)
        refine ⟨_, [.register backend flags], .ok (), ?_,
          .registered hnext hnew (Nat.not_le.mp hfull)⟩
        simp only [hcommit]
        rfl

theorem reregister_changes (os : TargetOs) (h : self.registrations.WF) (token : ResourceToken)
    (interest : Interest) (registry : Except X Unit) :
    ∃ calls result, self.reregister os token interest registry = (self, calls, result) ∧
      Changes self (.reregister token interest registry) (.changed calls result) self := by
  rw [reregister]
  cases hbackend : self.registrations.backend (X := X) token with
  | error error => exact ⟨_, _, rfl, .rejected nofun⟩
  | ok backend =>
    have hmem := h.backend_eq_ok.mp hbackend
    cases interest.intoMioInterest (X := X) os with
    | error error => exact ⟨_, _, rfl, .rejected nofun⟩
    | ok flags =>
      cases registry with
      | error source => exact ⟨_, _, rfl, .reregistered hmem⟩
      | ok => exact ⟨_, _, rfl, .reregistered hmem⟩

theorem deregister_changes (h : self.registrations.WF) (token : ResourceToken)
    (registry : Except X Unit) :
    ∃ self' calls result, self.deregister token registry = (self', calls, result) ∧
      Changes self (.deregister token registry) (.changed calls result) self' := by
  rw [deregister.eq_def]
  cases hbackend : self.registrations.backend (X := X) token with
  | error error => exact ⟨_, _, _, rfl, .rejected nofun⟩
  | ok backend =>
    have hmem := h.backend_eq_ok.mp hbackend
    cases registry with
    | error source => exact ⟨_, _, _, rfl, .unremoved⟩
    | ok =>
      dsimp only
      rw [Registrations.remove]
      cases hindex : self.registrations.entries.findIdx? fun entry => entry.resource = token with
      | none =>
        -- `backend` found the entry that `remove` looks for
        have hnone := List.findIdx?_eq_none_iff.mp hindex _ hmem
        simp at hnone
      | some index =>
        obtain ⟨hlt, hfound, -⟩ := List.findIdx?_eq_some_iff_getElem.mp hindex
        have htoken : self.registrations.entries[index].resource = token := by simpa using hfound
        have hentry : self.registrations.entries[index] = ⟨token, backend⟩ :=
          h.resource_inj (List.getElem_mem hlt) hmem htoken
        have hsplit : self.registrations.entries
            = self.registrations.entries.take index
              ++ ⟨token, backend⟩ :: self.registrations.entries.drop (index + 1) := by
          rw [← hentry, List.getElem_cons_drop, List.take_append_drop]
        refine ⟨_, _, _, rfl, ?_⟩
        dsimp only
        rw [List.eraseIdx_eq_take_drop_succ]
        exact .deregistered hsplit

/-- **No operation panics**, and each does one of the things `Changes` lists. -/
theorem exec_changes (os : TargetOs) (h : self.registrations.WF) {op : Op X}
    (hbounded : op.Bounded self.limits) :
    ∃ self' reply, self.exec os op = .ok (self', reply) ∧ Changes self op reply self' := by
  cases op with
  | register token interest registry =>
    obtain ⟨self', calls, result, hrun, hchanges⟩ := register_changes os h token interest registry
    exact ⟨self', _, by rw [exec, hrun]; rfl, hchanges⟩
  | reregister token interest registry =>
    obtain ⟨calls, result, hrun, hchanges⟩ := reregister_changes os h token interest registry
    exact ⟨self, _, by rw [exec, hrun], hchanges⟩
  | deregister token registry =>
    obtain ⟨self', calls, result, hrun, hchanges⟩ := deregister_changes h token registry
    exact ⟨self', _, by rw [exec, hrun], hchanges⟩
  | poll destination polled =>
    have hpoll : ∃ destination' result,
        self.pollOnce destination polled = .ok (destination', result) := by
      by_cases hsmall : destination.clear.capacity.get < self.limits.events.get
      · exact ⟨_, _, if_pos hsmall⟩
      cases polled with
      | error source => exact ⟨_, _, if_neg hsmall⟩
      | ok events => exact ⟨_, _, pollOnce_ok h hbounded (not_lt.mp hsmall)⟩
    obtain ⟨destination', result, hrun⟩ := hpoll
    exact ⟨self, _, by rw [exec, hrun]; rfl, .polled⟩

/-- Once a backend token is spent, it and everything before it was issued. -/
theorem issued_advance {registrations : Registrations} {backend issued : BackendToken}
    (hnext : registrations.nextBackend = backend.checkedAdd 1) (h : issued ≤ backend) :
    registrations.Issued issued := by
  intro next hadd
  rw [hnext] at hadd
  have hval := U64.checkedAdd_eq_some.mp hadd
  rw [Fin.lt_def]
  rw [Fin.le_def] at h
  simp only [Fin.val_one] at hval
  omega

/-- What a removal leaves was there before. -/
theorem removed_sublist {entries before after : List Registration} {entry : Registration}
    (h : entries = before ++ entry :: after) : (before ++ after).Sublist entries := by
  rw [h]
  exact List.Sublist.append_left (List.sublist_cons_self _ _) _

theorem Changes.wf {self' : MioPoller} {op : Op X} {reply : Reply X}
    (hc : Changes self op reply self') (h : self.registrations.WF) : self'.registrations.WF := by
  -- a successor is never the wake token
  have hadvance : ∀ {backend next : BackendToken}, backend.checkedAdd 1 = some next →
      wakeToken < next := by
    intro backend next hadd
    have hval := U64.checkedAdd_eq_some.mp hadd
    rw [Fin.lt_def, wakeToken]
    simp only [Fin.val_one] at hval
    simp only [Fin.val_zero]
    omega
  cases hc with
  | rejected | reregistered | unremoved | polled => exact h
  | refused hnext =>
    refine ⟨h.sorted, h.resources, fun entry hmem => ⟨(h.issued entry hmem).1, ?_⟩, h.room,
      fun next => hadvance⟩
    exact issued_advance rfl ((h.issued entry hmem).2 _ hnext).le
  | registered hnext hnew hroom =>
    refine ⟨?_, ?_, fun entry hmem => ?_, ?_, fun next => hadvance⟩
    · refine List.pairwise_append.mpr ⟨h.sorted, List.pairwise_singleton .., ?_⟩
      intro entry hmem added hadded
      obtain rfl := List.mem_singleton.mp hadded
      exact (h.issued entry hmem).2 _ hnext
    · rw [List.map_append, List.nodup_append]
      refine ⟨h.resources, by simp, ?_⟩
      intro resource hmem added hadded
      obtain ⟨entry, hentry, rfl⟩ := List.mem_map.mp hmem
      obtain rfl := List.mem_singleton.mp hadded
      exact hnew entry hentry
    · rcases List.mem_append.mp hmem with hmem | hadded
      · exact ⟨(h.issued entry hmem).1, issued_advance rfl ((h.issued entry hmem).2 _ hnext).le⟩
      · obtain rfl := List.mem_singleton.mp hadded
        exact ⟨h.next _ hnext, issued_advance rfl le_rfl⟩
    · simp only [List.length_append, List.length_singleton]
      exact hroom
  | @deregistered token backend before after hsplit =>
    have hsub := removed_sublist hsplit
    exact ⟨h.sorted.sublist hsub, h.resources.sublist (hsub.map _),
      fun entry hmem => h.issued entry (hsub.mem hmem), hsub.length_le.trans h.room, h.next⟩

end

/-! ### What a run hands out -/

/-- The backend tokens that a call hands to Mio for a registration. -/
def handedBy (l : Op X × Reply X) : List (ResourceToken × BackendToken) :=
  match l with
  | (.register token _ _, .changed [.register backend _] _) => [(token, backend)]
  | _ => []

def handed (tr : List (Op X × Reply X)) : List (ResourceToken × BackendToken) :=
  tr.flatMap handedBy

/-- Backend tokens are handed out in increasing order, and a registration is of the
resource that its token was handed out for. -/
structure History (tr : List (Op X × Reply X)) (poller : MioPoller) : Prop where
  wf : poller.registrations.WF
  increasing : (handed tr).Pairwise fun a b => a.2 < b.2
  issued : ∀ p ∈ handed tr, wakeToken < p.2 ∧ poller.registrations.Issued p.2
  owned : ∀ entry ∈ poller.registrations.entries, (entry.resource, entry.backend) ∈ handed tr

section

variable {tr : List (Op X × Reply X)} {self self' : MioPoller} {l : Op X × Reply X}

theorem handed_snoc : handed (tr ++ [l]) = handed tr ++ handedBy l := by
  rw [handed, List.flatMap_append, List.flatMap_singleton, handed]

/-- An operation that hands nothing out. -/
theorem History.idle (h : History tr self) (hhanded : handedBy l = [])
    (hwf : self'.registrations.WF)
    (hissued : ∀ backend, self.registrations.Issued backend → self'.registrations.Issued backend)
    (hentries : self'.registrations.entries ⊆ self.registrations.entries) :
    History (tr ++ [l]) self' := by
  have hsame : handed (tr ++ [l]) = handed tr := by
    rw [handed_snoc, hhanded, List.append_nil]
  refine ⟨hwf, ?_, fun p hp => ?_, fun entry hmem => ?_⟩
  · rw [hsame]
    exact h.increasing
  · rw [hsame] at hp
    exact ⟨(h.issued p hp).1, hissued _ (h.issued p hp).2⟩
  · rw [hsame]
    exact h.owned entry (hentries hmem)

/-- A registration, accepted or refused. -/
theorem History.hand (h : History tr self) {token : ResourceToken} {backend : BackendToken}
    (hhanded : handedBy l = [(token, backend)])
    (hnext : self.registrations.nextBackend = some backend) (hwf : self'.registrations.WF)
    (hadvanced : self'.registrations.nextBackend = backend.checkedAdd 1)
    (hentries : ∀ entry ∈ self'.registrations.entries,
      entry ∈ self.registrations.entries ∨ entry = ⟨token, backend⟩) :
    History (tr ++ [l]) self' := by
  have hbelow : ∀ p ∈ handed tr, p.2 < backend := fun p hp => (h.issued p hp).2 backend hnext
  refine ⟨hwf, ?_, fun p hp => ?_, fun entry hmem => ?_⟩
  · rw [handed_snoc, hhanded]
    refine List.pairwise_append.mpr ⟨h.increasing, List.pairwise_singleton .., fun p hp q hq => ?_⟩
    obtain rfl := List.mem_singleton.mp hq
    exact hbelow p hp
  · rw [handed_snoc, hhanded] at hp
    rcases List.mem_append.mp hp with hp | hp
    · exact ⟨(h.issued p hp).1, issued_advance hadvanced (hbelow p hp).le⟩
    · obtain rfl := List.mem_singleton.mp hp
      exact ⟨h.wf.next _ hnext, issued_advance hadvanced le_rfl⟩
  · rw [handed_snoc, hhanded]
    rcases hentries entry hmem with hmem | rfl
    · exact List.mem_append_left _ (h.owned entry hmem)
    · exact List.mem_append_right _ (List.mem_singleton.mpr rfl)

theorem History.next (h : History tr self) (hc : Changes self l.1 l.2 self') :
    History (tr ++ [l]) self' := by
  have hwf := hc.wf h.wf
  obtain ⟨op, reply⟩ := l
  cases hc with
  | rejected =>
    exact h.idle (by cases op <;> rfl) hwf (fun _ => id) (List.Subset.refl _)
  | reregistered | unremoved | polled =>
    exact h.idle rfl hwf (fun _ => id) (List.Subset.refl _)
  | refused hnext => exact h.hand rfl hnext hwf rfl fun entry hmem => .inl hmem
  | registered hnext =>
    refine h.hand rfl hnext hwf rfl fun entry hmem => ?_
    exact (List.mem_append.mp hmem).imp_right List.mem_singleton.mp
  | deregistered hsplit =>
    exact h.idle rfl hwf (fun _ => id) (removed_sublist hsplit).subset

variable {os : TargetOs}

theorem step_changes (h : self.registrations.WF) (hstep : (system os X).step self l self') :
    Changes self l.1 l.2 self' := by
  obtain ⟨hbounded, hexec⟩ := hstep
  obtain ⟨self'', reply, hexec', hchanges⟩ := exec_changes os h hbounded
  obtain ⟨rfl, rfl⟩ := Prod.mk.inj (Except.ok.inj (hexec'.symm.trans hexec))
  exact hchanges

theorem run_history (h : (system os X).Run tr self) : History tr self := by
  refine h.invariant (I := History) (fun {s} hinit => ?_) fun {tr s l s'} _ hs hstep =>
    hs.next (step_changes hs.wf hstep)
  obtain ⟨limits, rfl⟩ := hinit
  exact ⟨.new limits, .nil, nofun, nofun⟩

/-- A spent backend token stays spent, and registered only if it was. -/
theorem Changes.spent {op : Op X} {reply : Reply X} (hc : Changes self op reply self')
    {backend : BackendToken} (hissued : self.registrations.Issued backend) :
    self'.registrations.Issued backend ∧ ∀ entry ∈ self'.registrations.entries,
      entry.backend = backend → entry ∈ self.registrations.entries := by
  cases hc with
  | rejected | reregistered | unremoved | polled => exact ⟨hissued, fun entry hmem _ => hmem⟩
  | refused hnext => exact ⟨issued_advance rfl (hissued _ hnext).le, fun entry hmem _ => hmem⟩
  | registered hnext =>
    refine ⟨issued_advance rfl (hissued _ hnext).le, fun entry hmem hbackend => ?_⟩
    rcases List.mem_append.mp hmem with hmem | hadded
    · exact hmem
    · obtain rfl := List.mem_singleton.mp hadded
      exact absurd hbackend (hissued _ hnext).ne'
  | deregistered hsplit =>
    exact ⟨hissued, fun entry hmem _ => (removed_sublist hsplit).subset hmem⟩

/-- A backend token that was spent and is not registered never is again. -/
theorem spent_forever {later : MioPoller} {backend : BackendToken}
    (hwf : self.registrations.WF) (hissued : self.registrations.Issued backend)
    (hunused : self.registrations.resource backend = none)
    (h : Steps (system os X).step self tr later) : later.registrations.resource backend = none := by
  have hall : later.registrations.WF ∧ later.registrations.Issued backend ∧
      ∀ entry ∈ later.registrations.entries, entry.backend ≠ backend := by
    refine h.preserves (P := fun s => s.registrations.WF ∧ s.registrations.Issued backend ∧
      ∀ entry ∈ s.registrations.entries, entry.backend ≠ backend) ?_
      ⟨hwf, hissued, hwf.resource_eq_none.mp hunused⟩
    rintro u l v ⟨hu, hissued, hunused⟩ hstep
    have hc := step_changes hu hstep
    obtain ⟨hissued', hkept⟩ := hc.spent hissued
    exact ⟨hc.wf hu, hissued',
      fun entry hmem hbackend => hunused entry (hkept entry hmem hbackend) hbackend⟩
  exact hall.1.resource_eq_none.mpr hall.2.2

end

/-! ### Every run -/

/-- Whether the operation failed. -/
def Reply.failed : Reply X → Bool
  | .changed _ (.error _) | .polled _ (.error _) => true
  | .changed _ (.ok _) | .polled _ (.ok _) => false

/-- A failed operation leaves the translation, but for a spent backend token. -/
theorem Changes.failed {self self' : MioPoller} {op : Op X} {reply : Reply X}
    (hc : Changes self op reply self') (hfailed : reply.failed = true) :
    self'.registrations.entries = self.registrations.entries ∧
      self'.limits = self.limits ∧
      (self'.registrations.nextBackend = self.registrations.nextBackend ∨
        ∃ token backend, handedBy (op, reply) = [(token, backend)] ∧
          self.registrations.nextBackend = some backend ∧
          self'.registrations.nextBackend = backend.checkedAdd 1) := by
  cases hc with
  | rejected | reregistered | unremoved | polled => exact ⟨rfl, rfl, .inl rfl⟩
  | refused hnext => exact ⟨rfl, rfl, .inr ⟨_, _, rfl, hnext, rfl⟩⟩
  | registered | deregistered => cases hfailed

/-- **The translation of backend tokens is exact, and fenced by generation.**  After
every sequence of operations, whatever Mio answers:

* the registrations pair resources with backend tokens one to one, in increasing
  order, none of them zero and all below the next; both lookups find exactly these;
* no backend token is handed to Mio twice;
* no operation panics, and a failed one only may have spent a backend token;
* a poll delivers what the registrations say, in order, and counts the rest;
* a backend token that was handed out for a resource never stands for another one,
  and never for any once its registration is gone. -/
theorem mio_translation {os : TargetOs} {tr : List (Op X × Reply X)} {self : MioPoller}
    (h : (system os X).Run tr self) :
    self.registrations.WF ∧
    (∀ token backend, ⟨token, backend⟩ ∈ self.registrations.entries ↔
      self.registrations.resource backend = some token) ∧
    (∀ token backend, ⟨token, backend⟩ ∈ self.registrations.entries ↔
      self.registrations.backend (X := X) token = .ok backend) ∧
    ((handed tr).Pairwise fun a b => a.2 < b.2) ∧
    (∀ p ∈ handed tr, wakeToken < p.2 ∧ self.registrations.Issued p.2) ∧
    (∀ op : Op X, op.Bounded self.limits → ∃ self' reply,
      self.exec os op = .ok (self', reply) ∧ Changes self op reply self' ∧
      (reply.failed = true → self'.registrations.entries = self.registrations.entries ∧
        self'.limits = self.limits ∧
        (self'.registrations.nextBackend = self.registrations.nextBackend ∨
          ∃ token backend, handedBy (op, reply) = [(token, backend)] ∧
            self.registrations.nextBackend = some backend ∧
            self'.registrations.nextBackend = backend.checkedAdd 1))) ∧
    (∀ (destination : PollEvents) (events : List BackendEvent),
      events.length ≤ self.limits.events.get.val →
      self.limits.events.get ≤ destination.capacity.get →
      self.pollOnce (X := X) destination (.ok events)
        = .ok ({ destination with events := events.filterMap self.registrations.translated },
          .ok (self.reportFor events)) ∧
      (self.reportFor events).wakes ≤ (self.reportFor events).delivered ∧
      (self.reportFor events).delivered + (self.reportFor events).stale = events.length) ∧
    (∀ p ∈ handed tr, ∀ token, self.registrations.resource p.2 = some token → token = p.1) ∧
    (∀ p ∈ handed tr, self.registrations.resource p.2 = none → ∀ tr' later,
      Steps (system os X).step self tr' later → later.registrations.resource p.2 = none) := by
  have hh := run_history h
  refine ⟨hh.wf, fun _ _ => hh.wf.resource_eq_some.symm, fun _ _ => hh.wf.backend_eq_ok.symm,
    hh.increasing, hh.issued, fun op hbounded => ?_, fun destination events hbounded hroom =>
      ⟨pollOnce_ok hh.wf hbounded hroom, reportFor_adds_up self events⟩, ?_, ?_⟩
  · obtain ⟨self', reply, hexec, hchanges⟩ := exec_changes os hh.wf hbounded
    exact ⟨self', reply, hexec, hchanges, hchanges.failed⟩
  -- the token was handed out once, so for the resource it stands for
  · intro p hp token hresource
    have hother := hh.owned _ (hh.wf.resource_eq_some.mp hresource)
    have hnodup : ((handed tr).map Prod.snd).Nodup :=
      List.pairwise_map.mpr (hh.increasing.imp ne_of_lt)
    exact congrArg Prod.fst (List.inj_on_of_nodup_map hnodup hother hp rfl)
  · exact fun p hp hnone tr' later hlater =>
      spent_forever hh.wf (hh.issued p hp).2 hnone hlater

/-- A source is registered, another one is refused by Mio, the first is removed and
registered again; a late event of its first registration is stale. -/
theorem mio_translation_fenced :
    let limits : MioPollerLimits := ⟨⟨4, by decide⟩, ⟨2, by decide⟩⟩
    let event (token : BackendToken) : BackendEvent :=
      ⟨token, true, false, false, false, false, false, false, false⟩
    ∃ tr self, (system .linux Unit).Run tr self ∧
      handed tr = [(⟨7, 0, 0⟩, 1), (⟨7, 1, 0⟩, 2), (⟨7, 0, 1⟩, 3)] ∧
      self.pollOnce (X := Unit) ⟨limits.events, []⟩ (.ok [event 0, event 1, event 3])
        = .ok (⟨limits.events, [.wake, .resource ⟨7, 0, 1⟩ ⟨1⟩]⟩, .ok ⟨3, 2, 1, 1, false⟩) := by
  intro limits event
  have hstart : (system .linux Unit).Run [] (.new limits) := .start ⟨limits, rfl⟩
  have hregistered : (system .linux Unit).step (.new limits)
      (.register ⟨7, 0, 0⟩ .readable (.ok ()), .changed [.register 1 {.readable}] (.ok ()))
      ⟨⟨limits, [⟨⟨7, 0, 0⟩, 1⟩], some 2⟩⟩ := ⟨trivial, rfl⟩
  have hrefused : (system .linux Unit).step ⟨⟨limits, [⟨⟨7, 0, 0⟩, 1⟩], some 2⟩⟩
      (.register ⟨7, 1, 0⟩ .readable (.error ()),
        .changed [.register 2 {.readable}] (.error (.io ())))
      ⟨⟨limits, [⟨⟨7, 0, 0⟩, 1⟩], some 3⟩⟩ := ⟨trivial, rfl⟩
  have hremoved : (system .linux Unit).step ⟨⟨limits, [⟨⟨7, 0, 0⟩, 1⟩], some 3⟩⟩
      (.deregister ⟨7, 0, 0⟩ (.ok ()), .changed [.deregister] (.ok ()))
      ⟨⟨limits, [], some 3⟩⟩ := ⟨trivial, rfl⟩
  have hagain : (system .linux Unit).step ⟨⟨limits, [], some 3⟩⟩
      (.register ⟨7, 0, 1⟩ .readable (.ok ()), .changed [.register 3 {.readable}] (.ok ()))
      ⟨⟨limits, [⟨⟨7, 0, 1⟩, 3⟩], some 4⟩⟩ := ⟨trivial, rfl⟩
  have hrun := (((hstart.next hregistered).next hrefused).next hremoved).next hagain
  obtain ⟨-, -, -, -, -, -, hpoll, -⟩ := mio_translation hrun
  have hbatch := (hpoll ⟨limits.events, []⟩ [event 0, event 1, event 3] (by decide) le_rfl).1
  exact ⟨_, _, hrun, rfl, hbatch⟩

end MioPoller

end Calandria
