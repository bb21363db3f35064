/-
The echoing reactor as a session on one socket.

Seen from outside, the duty is a connection that is told of readiness, reads, writes,
changes its interest and leaves.  `Acts` says which calls it makes, and what becomes of
it with the answer.

* `Session`, `Acts` — the session, and one call;
* `Pending`, `Open` — the duty has the connection, with or without events to take in;
* `Follows` — a part of a turn is a piece of a session (`Follows.andThen` for `?`);
* `turn_follows`, `wait_follows` — the turns and the waits;
* `run_session` — every run is a session, and no assertion fails.
-/
import Calandria.FramedReactor
import Calandria.MioTranslation

namespace Calandria

namespace FramedReactor

open Resource (Index ResourceTable Slot)

variable {X : Type} {os : TargetOs}

/-! ### The table and the registrations -/

def connectionToken : ResourceToken := ⟨1, 0, 0⟩

/-- The one slot of the table. -/
def slot : Index limits.registrations := ⟨0, Nat.one_pos⟩

theorem eq_slot (k : Index limits.registrations) : k = slot :=
  Fin.ext (Nat.lt_one_iff.mp k.isLt)

/-- The table with the connection in it. -/
def table (c : Connection) : ResourceTable limits.registrations U64 Connection :=
  ⟨1, fun _ => .occupied 0 1 c, 1, 0⟩

/-- The table after the connection has been removed. -/
def emptied : ResourceTable limits.registrations U64 Connection := ⟨1, fun _ => .vacant 1, 0, 0⟩

theorem setSlot_eq (t : ResourceTable limits.registrations U64 Connection)
    (k : Index limits.registrations) (x : Slot U64 Connection) :
    t.setSlot k x = { t with slots := fun _ => x } := by
  rw [ResourceTable.setSlot]
  congr
  funext j
  rw [eq_slot j, eq_slot k, Function.update_self]

theorem get_table (c : Connection) : (table c).get connectionToken = .ok (1, c) := rfl

theorem validate_table (c : Connection) :
    (table c).validateToken connectionToken = .ok slot := rfl

theorem getMut_table (c : Connection) (write : Connection → Connection) :
    (table c).getMut connectionToken write = (table (write c), .ok (1, c)) := by
  rw [ResourceTable.getMut, validate_table]
  simp only [table, setSlot_eq]

theorem remove_table (c : Connection) :
    (table c).remove connectionToken = .ok (emptied, .ok (1, c)) := by
  rw [ResourceTable.remove, validate_table]
  simp only [table, setSlot_eq]
  rfl

theorem admit_table : (ResourceTable.startingAt limits.registrations 1 0).admitResource (1 : U64)
    Connection.new = .ok (table .new, .ok connectionToken) := by
  have hvacant : (ResourceTable.startingAt limits.registrations 1 0 :
    ResourceTable limits.registrations U64 Connection).nextVacant = some (slot, 0) := rfl
  rw [ResourceTable.admitResource, if_neg (by decide +kernel), if_neg (by decide +kernel), hvacant]
  simp only [setSlot_eq]
  rfl

/-- The connection under the first backend token. -/
def registered : Registrations := ⟨limits, [⟨connectionToken, 1⟩], some 2⟩

/-- The registrations after the connection has left. -/
def deregistered : Registrations := ⟨limits, [], some 2⟩

theorem registered_wf : registered.WF where
  sorted := List.pairwise_singleton ..
  resources := List.nodup_singleton _
  issued := by
    intro entry hentry
    rw [List.mem_singleton.mp hentry]
    refine ⟨by decide, fun next hnext => ?_⟩
    rw [← Option.some_inj.mp hnext]
    decide
  room := le_rfl
  next := by
    intro next hnext
    rw [← Option.some_inj.mp hnext]
    decide

theorem readable_flags :
    Interest.readable.intoMioInterest os = (.ok {.readable} : Except (MioError X) _) := by
  cases os <;> rfl

theorem readWrite_flags :
    Interest.readWrite.intoMioInterest os = (.ok {.readable, .writable} : Except (MioError X) _) := by
  cases os <;> rfl

/-- Mio can express whatever a connection is interested in. -/
theorem desired_flags (os : TargetOs) (c : Connection) :
    ∃ flags, c.desiredInterest.intoMioInterest os = (.ok flags : Except (MioError X) _) := by
  rw [Connection.desiredInterest]
  split
  · exact ⟨_, readable_flags⟩
  · exact ⟨_, readWrite_flags⟩

theorem new_eq : new os (.ok () : Except X Unit) = .ok ([.register 1 {.readable}],
    .ok ⟨⟨registered⟩, .new limits.events, table .new, connectionToken, false, 0, 0, 0⟩) := by
  have hregister : (MioPoller.new limits).register os connectionToken .readable
      (.ok () : Except X Unit) = .ok (⟨registered⟩, [.register 1 {.readable}], .ok ()) := by
    rw [MioPoller.register, readable_flags]
    rfl
  rw [new, admit_table]
  simp only [get_table, hregister]

/-! ### Sessions -/

namespace Connection

/-- What an event tells the connection. -/
def told (c : Connection) : PollEvent → Connection
  | .wake => c
  | .resource _ readiness => c.observe readiness

end Connection

/-- The events that a batch is turned into. -/
def translate (batch : List BackendEvent) : List PollEvent :=
  batch.filterMap registered.translated

/-- Whether a session goes on. -/
inductive Stage (X : Type)
  | live
  | closed
  | failed (failure : Failure X)

/-- It goes on unless something failed. -/
def Stage.of {α : Type} : Except (Failure X) α → Stage X
  | .ok _ => .live
  | .error failure => .failed failure

theorem Stage.of_error {α : Type} (failure : Failure X) :
    Stage.of (.error failure : Except (Failure X) α) = .failed failure := rfl

structure Session (X : Type) where
  connection : Connection
  stage : Stage X

/-- One call of a live session. -/
inductive Acts (os : TargetOs) (c : Connection) : Call X → Session X → Prop
  | poll {batch} : Acts os c (.poll (.ok batch)) ⟨(translate batch).foldl .told c, .live⟩
  | pollFails {source} : Acts os c (.poll (.error source)) ⟨c, .failed (.mio (.io source))⟩
  | read {answer c' result} : c.readReady = true → c.write = [] →
      (∀ chunk, answer = .ok chunk → chunk.length ≤ 512) → c.receive answer = (c', result) →
      Acts os c (.read answer) ⟨c', .of result⟩
  | write {answer c' result} : c.writeReady = true → c.written < c.write.length →
      (∀ n, answer = .ok n → n ≤ c.unwritten.length) → c.sent answer = (c', result) →
      Acts os c (.write c.unwritten answer) ⟨c', .of result⟩
  | reregister {flags} : c.desiredInterest ≠ c.interest →
      c.desiredInterest.intoMioInterest os = (.ok flags : Except (MioError X) _) →
      Acts os c (.registry (.reregister 1 flags))
        ⟨{ c with interest := c.desiredInterest }, .live⟩
  | reregisterFails {flags source} : c.desiredInterest ≠ c.interest →
      c.desiredInterest.intoMioInterest os = (.ok flags : Except (MioError X) _) →
      Acts os c (.registry (.reregister 1 flags)) ⟨c, .failed (.mio (.io source))⟩
  | deregister : c.write ≠ [] → c.written = c.write.length → c.interest = c.desiredInterest →
      Acts os c (.registry .deregister) ⟨c, .closed⟩
  | deregisterFails {source} :
      c.write ≠ [] → c.written = c.write.length → c.interest = c.desiredInterest →
      Acts os c (.registry .deregister) ⟨c, .failed (.mio (.io source))⟩

/-- A session is over once it is closed or has failed. -/
inductive SessionStep (os : TargetOs) : Session X → Call X → Session X → Prop
  | act {c call s'} : Acts os c call s' → SessionStep os ⟨c, .live⟩ call s'

/-! ### The loops -/

/-- What a loop does: calls of a session, one for each unit of the budget that is used up; if
something is left of the budget, then the connection `rests`. -/
structure Loops (os : TargetOs) (c : Connection) (budget work : ℕ)
    (rests : Connection → Prop) (p : Progress X (ℕ × ℕ)) : Prop where
  steps : Steps (SessionStep os) ⟨c, .live⟩ p.calls ⟨p.connection, .of p.result⟩
  spends : ∀ left work', p.result = .ok (left, work') →
    work' = work + p.calls.length ∧ left + p.calls.length = budget ∧ (left ≠ 0 → rests p.connection)

theorem Loops.stop {c : Connection} {budget work : ℕ} {rests : Connection → Prop}
    (h : budget ≠ 0 → rests c) :
    Loops os c budget work rests (⟨c, [], .ok (budget, work)⟩ : Progress X _) := by
  refine ⟨.refl, fun left work' heq => ?_⟩
  cases heq
  exact ⟨rfl, rfl, h⟩

theorem Loops.fail {c c' : Connection} {call : Call X} {failure : Failure X} {budget work : ℕ}
    {rests : Connection → Prop} (h : Acts os c call ⟨c', .failed failure⟩) :
    Loops os c budget work rests ⟨c', [call], .error failure⟩ :=
  ⟨.single (.act h), fun _ _ heq => by cases heq⟩

theorem Loops.next {c c' : Connection} {call : Call X} {budget work : ℕ}
    {rests : Connection → Prop} {p : Progress X (ℕ × ℕ)} (h : Acts os c call ⟨c', .live⟩)
    (hp : Loops os c' budget (work + 1) rests p) :
    Loops os c (budget + 1) work rests { p with calls := call :: p.calls } := by
  refine ⟨(Steps.single (.act h)).trans hp.steps, fun left work' heq => ?_⟩
  obtain ⟨hwork, hleft, hrests⟩ := hp.spends left work' heq
  rw [List.length_cons]
  exact ⟨by omega, by omega, hrests⟩

/-- What a chunk is at most. -/
theorem chunk_length_le {answer : Except (SocketError X) { chunk : List U8 // chunk.length ≤ 512 }}
    {chunk : List U8} (h : answer.map Subtype.val = .ok chunk) : chunk.length ≤ 512 := by
  cases answer with
  | ok a =>
    cases h
    exact a.property
  | error => cases h

theorem taken_le {n m : ℕ} {answer : Except (SocketError X) (Fin (n + 1))}
    (h : answer.map Fin.val = .ok m) : m ≤ n := by
  cases answer with
  | ok a =>
    cases h
    exact Nat.le_of_lt_succ a.isLt
  | error => cases h

theorem readLoop_loops (os : TargetOs) (socket : Socket X) (budget work : ℕ) (c : Connection) :
    Loops os c budget work (fun c => ¬(c.readReady = true ∧ c.write = []))
      (c.readLoop socket budget work) := by
  induction budget generalizing work c with
  | zero => exact .stop fun hne => absurd rfl hne
  | succ budget ih =>
    rw [Connection.readLoop]
    split_ifs with hready
    · have hwrite : c.readReady = true ∧ c.write = [] := by simpa using hready
      obtain ⟨c', result, hreceive⟩ : ∃ c' result, c.receive ((socket.read budget).map Subtype.val)
        = (c', (result : Except (Failure X) Unit)) := ⟨_, _, rfl⟩
      have hact : Acts os c (.read ((socket.read budget).map Subtype.val)) ⟨c', .of result⟩ :=
        .read hwrite.1 hwrite.2 (fun chunk => chunk_length_le) hreceive
      simp only [hreceive]
      cases result with
      | error failure => exact .fail hact
      | ok => exact .next hact (ih ..)
    · exact .stop fun _ => by simpa using hready

theorem writeLoop_loops (os : TargetOs) (socket : Socket X) (budget work : ℕ) (c : Connection) :
    Loops os c budget work
      (fun c' => ¬(c'.writeReady = true ∧ c'.written < c'.write.length))
      (c.writeLoop socket budget work) := by
  induction budget generalizing work c with
  | zero => exact .stop fun hne => absurd rfl hne
  | succ budget ih =>
    rw [Connection.writeLoop]
    split_ifs with hready
    · have hwrite : c.writeReady = true ∧ c.written < c.write.length := by simpa using hready
      obtain ⟨c', result, hsent⟩ : ∃ c' result,
        c.sent ((socket.write budget c.unwritten).map Fin.val)
          = (c', (result : Except (Failure X) Unit)) := ⟨_, _, rfl⟩
      have hact : Acts os c (.write c.unwritten ((socket.write budget c.unwritten).map Fin.val))
          ⟨c', .of result⟩ :=
        .write hwrite.1 hwrite.2 (fun n => taken_le) hsent
      simp only [hsent]
      cases result with
      | error failure => exact .fail hact
      | ok => exact .next hact (ih ..)
    · exact .stop fun _ => by simpa using hready

theorem sent_frame (c : Connection) (answer : Except (SocketError X) ℕ) :
    (c.sent answer).1.readReady = c.readReady ∧ (c.sent answer).1.write = c.write := by
  rcases answer with (_ | _) | (_ | _)
  all_goals exact ⟨rfl, rfl⟩

theorem writeLoop_frame (socket : Socket X) (budget work : ℕ) (c : Connection) :
    (c.writeLoop socket budget work).connection.readReady = c.readReady ∧
      (c.writeLoop socket budget work).connection.write = c.write := by
  induction budget generalizing work c with
  | zero => exact ⟨rfl, rfl⟩
  | succ budget ih =>
    rw [Connection.writeLoop]
    split_ifs
    · obtain ⟨hready, hwrite⟩ := sent_frame c ((socket.write budget c.unwritten).map Fin.val)
      obtain ⟨c', result, hsent⟩ : ∃ c' result,
        c.sent ((socket.write budget c.unwritten).map Fin.val)
          = (c', (result : Except (Failure X) Unit)) := ⟨_, _, rfl⟩
      rw [hsent] at hready hwrite
      simp only [hsent]
      cases result with
      | error => exact ⟨hready, hwrite⟩
      | ok =>
        obtain ⟨hready', hwrite'⟩ := ih (work + 1) c'
        exact ⟨hready'.trans hready, hwrite'.trans hwrite⟩
    · exact ⟨rfl, rfl⟩

/-- There is nothing that the loops would do. -/
structure Connection.Rests (c : Connection) : Prop where
  reads : ¬(c.readReady = true ∧ c.write = [])
  writes : ¬(c.writeReady = true ∧ c.written < c.write.length)

/-- What the two loops do. -/
structure Progresses (os : TargetOs) (c : Connection) (p : Progress X ℕ) : Prop where
  steps : Steps (SessionStep os) ⟨c, .live⟩ p.calls ⟨p.connection, .of p.result⟩
  spends : ∀ work, p.result = .ok work →
    work ≤ ioBudget ∧ (work < ioBudget → p.connection.Rests)

theorem progress_progresses (os : TargetOs) (socket : Socket X) (c : Connection) :
    Progresses os c (c.progress socket ioBudget) := by
  have hreads := readLoop_loops os socket ioBudget 0 c
  rw [Connection.progress]
  generalize c.readLoop socket ioBudget 0 = reads at hreads ⊢
  obtain ⟨c', calls, failure | ⟨left, work⟩⟩ := reads
  · exact ⟨hreads.steps, fun work heq => by cases heq⟩
  · have hwrites := writeLoop_loops os socket left work c'
    have hframe := writeLoop_frame socket left work c'
    obtain ⟨hwork, hleft, hrests⟩ := hreads.spends left work rfl
    change work = 0 + calls.length at hwork
    change left + calls.length = ioBudget at hleft
    dsimp only
    generalize c'.writeLoop socket left work = writes at hwrites hframe ⊢
    obtain ⟨c'', more, failure | ⟨left', work'⟩⟩ := writes
    · exact ⟨hreads.steps.trans hwrites.steps, fun work heq => by cases heq⟩
    · obtain ⟨hwork', hleft', hrests'⟩ := hwrites.spends left' work' rfl
      refine ⟨hreads.steps.trans hwrites.steps, fun work heq => ?_⟩
      cases heq
      refine ⟨by omega, fun hlt => ⟨?_, hrests' (by omega)⟩⟩
      -- what the reads have left undone stays undone
      rw [hframe.1, hframe.2]
      exact hrests (by omega)

/-! ### The duty and its connection -/

/-- The event is a wake or about the connection. -/
def Own (event : PollEvent) : Prop :=
  event = .wake ∨ ∃ readiness, event = .resource connectionToken readiness

/-- The duty has the connection under its one token. -/
structure Has (r : FramedReactor) (stored : Connection) : Prop where
  token : r.token = connectionToken
  poller : r.poller = ⟨registered⟩
  resources : r.resources = table stored
  capacity : r.events.capacity = limits.events
  stale : r.staleResourceEvents = 0

/-- There may be events to take in; with them, the connection is `c`. -/
structure Pending (r : FramedReactor) (c : Connection) : Prop where
  has : ∃ stored, Has r stored ∧ c = r.events.events.foldl .told stored
  own : ∀ event ∈ r.events.events, Own event
  room : r.events.events.length ≤ limits.events.get.val

/-- Everything has been taken in. -/
structure Open (r : FramedReactor) (c : Connection) : Prop extends Has r c where
  events : r.events.events = []

theorem Open.pending {r : FramedReactor} {c : Connection} (h : Open r c) : Pending r c := by
  refine ⟨⟨c, h.toHas, by rw [h.events]; rfl⟩, ?_, ?_⟩
  · rw [h.events]
    exact fun _ hmem => absurd hmem List.not_mem_nil
  · rw [h.events]
    exact Nat.zero_le _

theorem translated_own {event : BackendEvent} {translated : PollEvent}
    (h : registered.translated event = some translated) : Own translated := by
  rw [Registrations.translated] at h
  split_ifs at h
  · exact .inl (Option.some_inj.mp h).symm
  · obtain ⟨entry, hentry, heq⟩ := Option.map_eq_some_iff.mp h
    have hmem := List.mem_singleton.mp (List.mem_of_find?_eq_some hentry)
    exact .inr ⟨_, (heq.symm.trans (by rw [hmem]))⟩

theorem ingest_has {r : FramedReactor} {stored : Connection} {event : PollEvent}
    (h : Has r stored) (hown : Own event) :
    Has (r.ingest event) (stored.told event) ∧ (r.ingest event).events = r.events ∧
      (r.ingest event).pollSaturated = r.pollSaturated := by
  rcases hown with rfl | ⟨readiness, rfl⟩
  · exact ⟨h, rfl, rfl⟩
  · rw [ingest, h.resources, getMut_table]
    exact ⟨⟨h.token, h.poller, rfl, h.capacity, h.stale⟩, rfl, rfl⟩

theorem foldl_ingest {r : FramedReactor} {stored : Connection} {events : List PollEvent}
    (h : Has r stored) (hown : ∀ event ∈ events, Own event) :
    Has (events.foldl ingest r) (events.foldl .told stored) ∧
      (events.foldl ingest r).events = r.events ∧
      (events.foldl ingest r).pollSaturated = r.pollSaturated := by
  induction events generalizing r stored with
  | nil => exact ⟨h, rfl, rfl⟩
  | cons event events ih =>
    obtain ⟨hhas, hevents, hsaturated⟩ := ingest_has h (hown event List.mem_cons_self)
    obtain ⟨hhas', hevents', hsaturated'⟩ :=
      ih hhas fun e he => hown e (List.mem_cons_of_mem _ he)
    exact ⟨hhas', hevents'.trans hevents, hsaturated'.trans hsaturated⟩

/-- Taking in leaves nothing to take in. -/
theorem ingestReadiness_open {r : FramedReactor} {c : Connection} (h : Pending r c) :
    Open r.ingestReadiness.1 c ∧ r.ingestReadiness.2 ≤ limits.events.get.val ∧
      r.ingestReadiness.1.pollSaturated = r.pollSaturated := by
  obtain ⟨stored, hhas, rfl⟩ := h.has
  have hcleared : Has { r with events := r.events.clear } stored :=
    ⟨hhas.token, hhas.poller, hhas.resources, hhas.capacity, hhas.stale⟩
  obtain ⟨hhas', hevents, hsaturated⟩ := foldl_ingest hcleared h.own
  exact ⟨⟨hhas', by rw [ingestReadiness, hevents]; rfl⟩, h.room, hsaturated⟩

/-! ### Pieces of a session -/

/-- A part of a turn is a piece of a session; `post` says what it leaves if it succeeds. -/
def Follows {α : Type} (os : TargetOs) (c : Connection) (stage : Except (Failure X) α → Stage X)
    (post : FramedReactor → Connection → α → Prop) (done : Done X α) : Prop :=
  ∃ c', Steps (SessionStep os) ⟨c, .live⟩ done.calls ⟨c', stage done.result⟩ ∧
    done.reactor.staleResourceEvents = 0 ∧ ∀ a, done.result = .ok a → post done.reactor c' a

/-- **The rule for `?`.** -/
theorem Follows.andThen {α β : Type} {c : Connection} {stage : Except (Failure X) β → Stage X}
    {post : FramedReactor → Connection → α → Prop} {post' : FramedReactor → Connection → β → Prop}
    {first : Done X α} {next : FramedReactor → α → Except Panic (Done X β)}
    (h : Follows os c .of post first) (hstage : ∀ failure, stage (.error failure) = .failed failure)
    (hnext : ∀ r c' a, post r c' a → ∃ done, next r a = .ok done ∧ Follows os c' stage post' done) :
    ∃ done, first.andThen next = .ok done ∧ Follows os c stage post' done := by
  obtain ⟨c', hsteps, hstale, hpost⟩ := h
  rw [Done.andThen]
  cases hresult : first.result with
  | error failure =>
    refine ⟨_, rfl, c', ?_, hstale, fun a ha => by cases ha⟩
    rw [hresult] at hsteps
    rw [hstage]
    exact hsteps
  | ok a =>
    obtain ⟨done, hdone, c'', hsteps', hstale', hpost'⟩ := hnext _ c' a (hpost a hresult)
    refine ⟨{ done with calls := first.calls ++ done.calls }, ?_, c'', ?_, hstale', hpost'⟩
    · simp only [hdone]
      rfl
    · rw [hresult] at hsteps
      exact hsteps.trans hsteps'

/-- A part that makes no call. -/
theorem Follows.skip {α : Type} {c : Connection} {post : FramedReactor → Connection → α → Prop}
    {r : FramedReactor} {a : α} (hstale : r.staleResourceEvents = 0) (hpost : post r c a) :
    Follows os c .of post (⟨r, [], .ok a⟩ : Done X α) := by
  refine ⟨c, .refl, hstale, fun a' ha => ?_⟩
  cases ha
  exact hpost

theorem poll_follows (os : TargetOs) {r : FramedReactor} {c : Connection} (h : Open r c)
    {polled : Except X (List BackendEvent)} (hbounded : Bounded polled) :
    ∃ done, r.poll polled = .ok done ∧ Follows os c .of (fun r c _ => Pending r c) done := by
  have hpoller := h.poller
  cases polled with
  | error source =>
    have hpoll : r.poller.pollOnce r.events (.error source)
        = .ok (r.events.clear, .error (.io source)) := by
      rw [hpoller, MioPoller.pollOnce]
      exact if_neg (by rw [show r.events.clear.capacity = _ from h.capacity]; exact lt_irrefl _)
    refine ⟨_, by rw [poll, hpoll], c, .single (SessionStep.act .pollFails), h.stale, ?_⟩
    intro a ha
    cases ha
  | ok batch =>
    have hpoll : r.poller.pollOnce (X := X) r.events (.ok batch)
        = .ok ({ r.events with events := translate batch },
          .ok (MioPoller.reportFor ⟨registered⟩ batch)) := by
      rw [hpoller]
      exact MioPoller.pollOnce_ok registered_wf hbounded (by rw [h.capacity]; exact le_rfl)
    refine ⟨_, by rw [poll, hpoll], _, .single (SessionStep.act .poll), h.stale, fun _ _ => ?_⟩
    refine ⟨⟨c, ⟨h.token, h.poller, h.resources, h.capacity, h.stale⟩, rfl⟩, ?_, ?_⟩
    · intro event hevent
      obtain ⟨_, -, htranslated⟩ := List.mem_filterMap.mp hevent
      exact translated_own htranslated
    · exact (List.length_filterMap_le ..).trans hbounded

/-- **A wait is a piece of the session.** -/
theorem wait_follows (os : TargetOs) {r : FramedReactor} {c : Connection} (h : Open r c)
    {polled : Except X (List BackendEvent)} (hbounded : Bounded polled) :
    ∃ done, r.waitForIo polled = .ok done ∧
      Follows os c .of (fun r c (_ : WaitOutcome) => Pending r c) done := by
  obtain ⟨done, hpoll, hfollows⟩ := poll_follows os h hbounded
  simp only [waitForIo, hpoll, bind, Except.bind]
  refine hfollows.andThen Stage.of_error fun r' c' report hpending => ?_
  obtain ⟨stored, hhas, -⟩ := hpending.has
  exact ⟨_, rfl, .skip hhas.stale hpending⟩

theorem ingestPollBatches_follows (os : TargetOs) {r : FramedReactor} {c : Connection}
    (h : Pending r c) {polled : Except X (List BackendEvent)} (hbounded : Bounded polled) :
    ∃ done, r.ingestPollBatches polled = .ok done ∧
      Follows os c .of (fun r c work => Open r c ∧ work ≤ 2 * limits.events.get.val) done := by
  obtain ⟨hopen, hwork, -⟩ := ingestReadiness_open h
  rw [ingestPollBatches]
  generalize r.ingestReadiness = ingested at hopen hwork ⊢
  obtain ⟨r', work⟩ := ingested
  dsimp only at hopen hwork ⊢
  split_ifs with hsaturated
  · obtain ⟨done, hpoll, hfollows⟩ := poll_follows os hopen hbounded
    simp only [hpoll, bind, Except.bind]
    refine hfollows.andThen Stage.of_error fun r'' c'' report hpending => ?_
    obtain ⟨hopen', hmore, -⟩ := ingestReadiness_open hpending
    exact ⟨_, rfl, .skip hopen'.stale ⟨hopen', by omega⟩⟩
  · exact ⟨_, rfl, .skip hopen.stale ⟨hopen, by omega⟩⟩

theorem progressIo_follows {r : FramedReactor} {c : Connection} (h : Open r c)
    (socket : Socket X) : Follows os c .of
      (fun r c more => Open r c ∧ more ≤ ioBudget ∧ (more < ioBudget → c.Rests))
      (r.progressIo socket ioBudget) := by
  have hprogresses := progress_progresses os socket c
  have hgetMut : r.resources.getMut r.token (fun connection =>
      (connection.progress socket ioBudget).connection)
      = (table (c.progress socket ioBudget).connection, .ok (1, c)) := by
    rw [h.token, h.resources, getMut_table]
  simp only [progressIo, hgetMut]
  refine ⟨_, hprogresses.steps, h.stale, fun more hmore => ?_⟩
  exact ⟨⟨⟨h.token, h.poller, rfl, h.capacity, h.stale⟩, h.events⟩, hprogresses.spends more hmore⟩

/-- The connection once Mio knows what it is interested in. -/
def Connection.synced (c : Connection) : Connection := { c with interest := c.desiredInterest }

theorem syncInterest_follows {r : FramedReactor} {c : Connection} (h : Open r c)
    (registry : Except X Unit) :
    Follows os c .of (fun r c' _ => Open r c' ∧ c' = c.synced) (r.syncInterest os registry) := by
  have hget : r.resources.get r.token = .ok (1, c) := by
    rw [h.token, h.resources]
    rfl
  simp only [syncInterest, hget]
  split_ifs with hdesired
  · obtain ⟨flags, hflags⟩ := desired_flags (X := X) os c
    have hreregister : r.poller.reregister os r.token c.desiredInterest registry
        = (r.poller, [.reregister 1 flags], registry.mapError .io) := by
      rw [h.poller, h.token, MioPoller.reregister,
        show (⟨registered⟩ : MioPoller).registrations.backend connectionToken
          = (.ok 1 : Except (MioError X) _) from rfl]
      simp only [hflags]
      cases registry <;> rfl
    rw [hreregister]
    cases registry with
    | error source =>
      exact ⟨c, .single (.act (.reregisterFails hdesired hflags)), h.stale, fun a ha => by cases ha⟩
    | ok =>
      refine ⟨c.synced, .single (.act (.reregister hdesired hflags)), h.stale, fun _ _ => ?_⟩
      refine ⟨⟨⟨h.token, h.poller, ?_, h.capacity, h.stale⟩, h.events⟩, rfl⟩
      show (r.resources.getMut r.token _).1 = table c.synced
      rw [h.token, h.resources, getMut_table]
      rfl
  · refine .skip h.stale ⟨h, ?_⟩
    rw [Connection.synced, not_not.mp hdesired]

/-! ### Turns and waits -/

def Stage.ofTurn : Except (Failure X) Turn → Stage X
  | .error failure => .failed failure
  | .ok ⟨_, .stop⟩ => .closed
  | .ok _ => .live

theorem Stage.ofTurn_error (failure : Failure X) :
    Stage.ofTurn (.error failure : Except (Failure X) Turn) = .failed failure := rfl

/-- What a turn leaves. -/
inductive Turned (r : FramedReactor) (c : Connection) : Turn → Prop
  /-- Neither the table nor the poller has the connection any more. -/
  | stop {work} : r.resources = emptied → r.poller = ⟨deregistered⟩ → Turned r c ⟨work, .stop⟩
  | now {work} : Open r c → c.interest = c.desiredInterest →
      (work.val < ioBudget →
        r.pollSaturated = true ∨ (c.readReady = true ∧ c.write ≠ [])) →
      Turned r c ⟨work, .now⟩
  | wake {work} : Open r c → c.interest = c.desiredInterest → r.pollSaturated = false →
      c.hasLocalWork = false → Turned r c ⟨work, .wake⟩

/-- The end of a turn that does not stop. -/
theorem report_turned {r : FramedReactor} {c : Connection} (h : Open r c)
    (hsynced : c.interest = c.desiredInterest) {work more : ℕ}
    (hwork : work ≤ 2 * limits.events.get.val) (hmore : more ≤ ioBudget)
    (hrests : more < ioBudget → c.Rests) :
    Follows os c .ofTurn Turned (r.report (work + more) false : Done X Turn) := by
  have hget : r.resources.get r.token = .ok (1, c) := by
    rw [h.token, h.resources]
    rfl
  have hopen : Open (r.charge (work + more)) c :=
    ⟨⟨h.token, h.poller, h.resources, h.capacity, h.stale⟩, h.events⟩
  simp only [report, hget]
  rw [if_neg Bool.false_ne_true]
  split_ifs with hnow
  · refine ⟨c, .refl, h.stale, fun a ha => ?_⟩
    cases ha
    refine .now hopen hsynced fun hlt => ?_
    have hvalue : (toU64 (work + more)).val = work + more := by
      refine Nat.mod_eq_of_lt ?_
      have hlimit : limits.events.get.val = 32 := rfl
      have hbudget : ioBudget = 8 := rfl
      omega
    obtain ⟨hreads, hwrites⟩ := hrests (by omega)
    refine ((Bool.or_eq_true ..).mp hnow).imp_right fun hlocal => ?_
    have hready : c.readReady = true :=
      ((Bool.or_eq_true ..).mp hlocal).resolve_right fun hw => hwrites (by simpa using hw)
    exact ⟨hready, fun hwrite => hreads ⟨hready, hwrite⟩⟩
  · refine ⟨c, .refl, h.stale, fun a ha => ?_⟩
    cases ha
    rw [Bool.or_eq_true, not_or, Bool.not_eq_true, Bool.not_eq_true] at hnow
    exact .wake hopen hsynced hnow.1 hnow.2

/-- The end of a turn. -/
theorem finish_follows (os : TargetOs) {r : FramedReactor} {c : Connection} (h : Open r c)
    (hsynced : c.interest = c.desiredInterest) {work more : ℕ}
    (hwork : work ≤ 2 * limits.events.get.val) (hmore : more ≤ ioBudget)
    (hrests : more < ioBudget → c.Rests) (registry : Except X Unit) :
    ∃ finished, r.finishIfWritten registry = .ok finished ∧
      ∃ done, (finished.andThen fun r finished => .ok (r.report (work + more) finished)) = .ok done ∧
        Follows os c .ofTurn Turned (done : Done X Turn) := by
  have hget : r.resources.get r.token = .ok (1, c) := by
    rw [h.token, h.resources]
    rfl
  simp only [finishIfWritten, hget]
  split_ifs with hcomplete
  · have hwritten : c.write ≠ [] ∧ c.written = c.write.length := by simpa using hcomplete
    have hderegister : r.poller.deregister r.token registry
        = ((if registry.isOk then ⟨deregistered⟩ else ⟨registered⟩), [.deregister],
          registry.mapError .io) := by
      rw [h.poller, h.token]
      cases registry <;> rfl
    rw [hderegister]
    cases registry with
    | error source =>
      refine ⟨_, rfl, _, rfl, c, ?_, h.stale, fun a ha => by cases ha⟩
      exact .single (.act (.deregisterFails hwritten.1 hwritten.2 hsynced))
    | ok =>
      have hremove : r.resources.remove r.token = .ok (emptied, .ok (1, c)) := by
        rw [h.token, h.resources, remove_table]
      simp only [Except.mapError, hremove]
      refine ⟨_, rfl, _, rfl, c, ?_, h.stale, fun a ha => ?_⟩
      · exact .single (.act (.deregister hwritten.1 hwritten.2 hsynced))
      · cases ha
        exact .stop rfl rfl
  · exact ⟨_, rfl, _, rfl, report_turned h hsynced hwork hmore hrests⟩

/-- **A turn is a piece of the session.** -/
theorem turn_follows (os : TargetOs) {r : FramedReactor} {c : Connection} (h : Pending r c)
    {answers : Answers X} (hbounded : Bounded answers.polled) :
    ∃ done, r.turn os answers = .ok done ∧ Follows os c .ofTurn Turned done := by
  obtain ⟨ingested, hingest, hfollows⟩ := ingestPollBatches_follows os h hbounded
  simp only [turn, hingest, bind, Except.bind]
  refine hfollows.andThen Stage.ofTurn_error fun r c work hpost => ?_
  obtain ⟨hopen, hwork⟩ := hpost
  refine (progressIo_follows hopen answers.socket).andThen Stage.ofTurn_error fun r c more hpost => ?_
  obtain ⟨hopen, hmore, hrests⟩ := hpost
  refine (syncInterest_follows hopen answers.reregistered).andThen Stage.ofTurn_error
    fun r c' _ hpost => ?_
  obtain ⟨hopen, rfl⟩ := hpost
  obtain ⟨finished, hfinish, hdone⟩ := finish_follows os hopen rfl hwork hmore
    (fun hlt => ⟨(hrests hlt).reads, (hrests hlt).writes⟩) answers.deregistered
  rw [hfinish]
  exact hdone

/-! ### Runs -/

def Pc.stage : Pc X → Stage X
  | .turning | .waiting => .live
  | .stopped => .closed
  | .failed failure => .failed failure

/-- Where the run loop is, the duty has what it needs there. -/
def Ready (s : State X) (c : Connection) : Prop :=
  match s.pc with
  | .turning => Pending s.reactor c
  | .waiting => Open s.reactor c ∧ c.interest = c.desiredInterest ∧
      s.reactor.pollSaturated = false ∧ c.hasLocalWork = false
  | .stopped => s.reactor.resources = emptied ∧ s.reactor.poller = ⟨deregistered⟩
  | .failed _ => True

/-- A run seen as a session. -/
structure Followed (os : TargetOs) (tr : List (Label X)) (s : State X) (c : Connection) :
    Prop where
  steps : Steps (SessionStep os) ⟨.new, .live⟩ (tr.flatMap Label.calls) ⟨c, s.pc.stage⟩
  stale : s.reactor.staleResourceEvents = 0
  ready : Ready s c

theorem Pc.stage_afterTurn {r : FramedReactor} {c : Connection}
    {result : Except (Failure X) Turn} (h : ∀ turn, result = .ok turn → Turned r c turn) :
    (Pc.afterTurn result).stage = Stage.ofTurn result ∧ Ready ⟨r, .afterTurn result⟩ c := by
  cases result with
  | error => exact ⟨rfl, trivial⟩
  | ok turn =>
    cases h turn rfl with
    | stop hresources hpoller => exact ⟨rfl, hresources, hpoller⟩
    | now hopen => exact ⟨rfl, hopen.pending⟩
    | wake hopen hsynced hsaturated hlocal => exact ⟨rfl, hopen, hsynced, hsaturated, hlocal⟩

theorem Pc.stage_afterWait {r : FramedReactor} {c : Connection}
    {result : Except (Failure X) WaitOutcome} (h : ∀ outcome, result = .ok outcome → Pending r c) :
    (Pc.afterWait result).stage = Stage.of result ∧ Ready ⟨r, .afterWait result⟩ c := by
  cases result with
  | error => exact ⟨rfl, trivial⟩
  | ok outcome => exact ⟨rfl, h outcome rfl⟩

/-- **Every run is a session.** -/
theorem run_session {tr : List (Label X)} {s : State X} (h : (system os X).Run tr s) :
    ∃ c, Followed os tr s c := by
  refine h.invariant (I := fun tr s => ∃ c, Followed os tr s c) ?_ ?_
  · rintro ⟨r, pc⟩ ⟨rfl, calls, hnew⟩
    rw [new_eq] at hnew
    cases hnew
    refine ⟨.new, .refl, rfl, ?_⟩
    exact Open.pending ⟨⟨rfl, rfl, rfl, rfl, rfl⟩, rfl⟩
  · rintro tr s l s' - ⟨c, hfollowed⟩ hstep
    have hready := hfollowed.ready
    have hsteps := hfollowed.steps
    rw [Ready] at hready
    cases hstep with
    | @turn done answers hpc hbounded hturn =>
      rw [hpc] at hready hsteps
      obtain ⟨_, hdone, c', hmore, hstale, hpost⟩ := turn_follows os hready hbounded
      obtain rfl := Except.ok.inj (hturn.symm.trans hdone)
      obtain ⟨hstage, hready'⟩ := Pc.stage_afterTurn hpost
      refine ⟨c', ?_, hstale, hready'⟩
      rw [List.flatMap_append, List.flatMap_singleton, hstage]
      exact hsteps.trans hmore
    | @wait done polled hpc hbounded hwait =>
      rw [hpc] at hready hsteps
      obtain ⟨_, hdone, c', hmore, hstale, hpost⟩ := wait_follows os hready.1 hbounded
      obtain rfl := Except.ok.inj (hwait.symm.trans hdone)
      obtain ⟨hstage, hready'⟩ := Pc.stage_afterWait hpost
      refine ⟨c', ?_, hstale, hready'⟩
      rw [List.flatMap_append, List.flatMap_singleton, hstage]
      exact hsteps.trans hmore

end FramedReactor

end Calandria
