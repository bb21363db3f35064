/-
What the echoing reactor reads and writes.

The bytes that the socket delivers and those that it takes are read off the calls of a
run, in whatever portions they come.

* `Receives` — what one read comes to;
* `Echo` — the connection holds what was delivered, and writes it once it is a frame;
* `Explains` — what was delivered when a run fails;
* `framed_echo` — a run that stops has echoed exactly one frame.
-/
import Calandria.FramedSession

namespace Calandria

namespace FramedReactor

variable {X : Type} {os : TargetOs}

/-! ### The bytes of a run -/

/-- The bytes that a call delivers. -/
def Call.received : Call X → List U8
  | .read (.ok chunk) => chunk
  | _ => []

/-- The bytes that the socket takes. -/
def Call.accepted : Call X → List U8
  | .write buffer (.ok written) => buffer.take written
  | _ => []

def received (calls : List (Call X)) : List U8 := calls.flatMap Call.received

def accepted (calls : List (Call X)) : List U8 := calls.flatMap Call.accepted

theorem received_snoc (calls : List (Call X)) (call : Call X) :
    received (calls ++ [call]) = received calls ++ call.received := by
  rw [received, List.flatMap_append, List.flatMap_singleton]
  rfl

theorem accepted_snoc (calls : List (Call X)) (call : Call X) :
    accepted (calls ++ [call]) = accepted calls ++ call.accepted := by
  rw [accepted, List.flatMap_append, List.flatMap_singleton]
  rfl

/-! ### One read -/

theorem prepareEcho_cases (c : Connection) :
    (frame.Unfinished c.read ∧ c.prepareEcho (X := X) = (c, .ok false)) ∨
    (4 ≤ c.read.length ∧ maxFrame < frame.claimed c.read ∧
      c.prepareEcho (X := X) = (c, .error .frameLimit)) ∨
    ((∃ payload rest, payload.length ≤ maxFrame ∧ rest ≠ [] ∧
      c.read = frame.encode payload ++ rest) ∧
      c.prepareEcho (X := X) = (c, .error .notOneFrame)) ∨
    (frame.Whole c.read ∧
      c.prepareEcho (X := X) = ({ c with write := c.write ++ c.read }, .ok true)) := by
  simp only [Connection.prepareEcho]
  by_cases hheader : c.read.length < 4
  · exact .inl ⟨.inl hheader, if_pos hheader⟩
  rw [if_neg hheader]
  by_cases hlimit : maxFrame < Framing.value (c.read.take 4)
  · exact .inr (.inl ⟨not_lt.mp hheader, hlimit, if_pos hlimit⟩)
  rw [if_neg hlimit]
  by_cases hshort : c.read.length < Framing.value (c.read.take 4) + 4
  · refine .inl ⟨.inr ⟨not_lt.mp hlimit, ?_⟩, if_pos hshort⟩
    show _ < 4 + Framing.value (c.read.take 4)
    omega
  rw [if_neg hshort]
  by_cases hlength : c.read.length = Framing.value (c.read.take 4) + 4
  · refine .inr (.inr (.inr ⟨⟨not_lt.mp hheader, not_lt.mp hlimit, ?_⟩, ?_⟩))
    · show _ = 4 + Framing.value (c.read.take 4)
      omega
    · exact if_neg (not_not.mpr hlength)
  · refine .inr (.inr (.inl ⟨?_, if_pos hlength⟩))
    refine Framing.Format.exists_frame_append (f := frame) (not_lt.mp hlimit) ?_
    show 4 + Framing.value (c.read.take 4) < _
    omega

/-- What a `read` comes to. -/
inductive Receives (c : Connection) :
    Except (SocketError X) (List U8) → Connection × Except (Failure X) Unit → Prop
  | blocked : Receives c (.error .wouldBlock) ({ c with readReady := false }, .ok ())
  | failed {source} : Receives c (.error (.other source)) (c, .error (.io source))
  | closed : Receives c (.ok []) (c, .error .unexpectedEof)
  | long {chunk} : frame.width + maxFrame < (c.read ++ chunk).length →
      Receives c (.ok chunk) (c, .error .frameLimit)
  | limit {chunk} : frame.width ≤ (c.read ++ chunk).length →
      maxFrame < frame.claimed (c.read ++ chunk) →
      Receives c (.ok chunk) ({ c with read := c.read ++ chunk }, .error .frameLimit)
  | more {chunk payload rest} : payload.length ≤ maxFrame → rest ≠ [] →
      c.read ++ chunk = frame.encode payload ++ rest →
      Receives c (.ok chunk) ({ c with read := c.read ++ chunk }, .error .notOneFrame)
  | unfinished {chunk} : frame.Unfinished (c.read ++ chunk) →
      Receives c (.ok chunk) ({ c with read := c.read ++ chunk }, .ok ())
  | whole {chunk} : frame.Whole (c.read ++ chunk) →
      Receives c (.ok chunk) ({ c with
        read := c.read ++ chunk
        write := c.write ++ (c.read ++ chunk)
        readReady := false }, .ok ())

theorem receive_receives (c : Connection) (answer : Except (SocketError X) (List U8)) :
    Receives c answer (c.receive answer) := by
  rw [Connection.receive.eq_def]
  cases answer with
  | error error =>
    cases error with
    | wouldBlock => exact .blocked
    | other => exact .failed
  | ok chunk =>
    simp only
    split_ifs with hempty htoo
    · rw [List.length_eq_zero_iff.mp hempty]
      exact .closed
    · refine .long ?_
      rw [List.length_append, Nat.add_comm]
      exact htoo
    · obtain ⟨hagain, hprepare⟩ | ⟨hheader, hlimit, hprepare⟩ | ⟨hmore, hprepare⟩ |
        ⟨hwhole, hprepare⟩ := prepareEcho_cases (X := X) { c with read := c.read ++ chunk }
      · rw [hprepare]
        exact .unfinished hagain
      · rw [hprepare]
        exact .limit hheader hlimit
      · rw [hprepare]
        obtain ⟨payload, rest, hpayload, hne, heq⟩ := hmore
        exact .more hpayload hne heq
      · rw [hprepare]
        exact .whole hwhole

/-- What the bytes were when a run failed. -/
def Explains (calls : List (Call X)) : Failure X → Prop
  | .unexpectedEof => frame.Unfinished (received calls)
  | .writeZero => frame.Whole (received calls) ∧ accepted calls ≠ received calls
  | .frameLimit => ∃ before chunk, received calls = before ++ chunk ∧ frame.Unfinished before ∧
      chunk.length ≤ 512 ∧ (frame.width + maxFrame < (received calls).length ∨
        (frame.width ≤ (received calls).length ∧ maxFrame < frame.claimed (received calls)))
  | .notOneFrame => ∃ payload rest, payload.length ≤ maxFrame ∧ rest ≠ [] ∧
      received calls = frame.encode payload ++ rest
  | .io _ => True
  | .mio error => ∃ source, error = .io source
  | .resource _ | .admission _ => False

/-- The connection holds what was delivered, and writes it once it is a frame. -/
structure Echo (calls : List (Call X)) (c : Connection) : Prop where
  read : c.read = received calls
  whole : (frame.Unfinished c.read ∧ c.write = []) ∨ (frame.Whole c.read ∧ c.write = c.read)
  written : c.written ≤ c.write.length
  taken : accepted calls = c.write.take c.written

/-- What was taken is the beginning of what was delivered, and there is none of it unless a frame
was delivered. -/
def Safe (calls : List (Call X)) : Prop :=
  accepted calls <+: received calls ∧ (accepted calls ≠ [] → frame.Whole (received calls))

variable {calls : List (Call X)} {call : Call X} {c c' : Connection}

theorem Echo.safe (h : Echo calls c) : Safe calls := by
  rw [Safe, h.taken, ← h.read]
  obtain ⟨-, hwrite⟩ | ⟨hwhole, hwrite⟩ := h.whole
  · rw [hwrite, List.take_nil]
    exact ⟨List.nil_prefix, fun hne => absurd rfl hne⟩
  · rw [hwrite]
    exact ⟨List.take_prefix .., fun _ => hwhole⟩

/-- Once the frame is there, it is written until all of it has been taken. -/
theorem Echo.written_lt (h : Echo calls c) (hwhole : frame.Whole (received calls))
    (hrest : accepted calls ≠ received calls) : c.written < c.write.length := by
  obtain ⟨hunfinished, -⟩ | ⟨-, hwrite⟩ := h.whole
  · rw [h.read] at hunfinished
    exact absurd hunfinished hwhole.not_unfinished
  · refine lt_of_le_of_ne h.written fun hall => hrest ?_
    rw [h.taken, hall, List.take_length, hwrite, h.read]

/-- A call that moves no bytes. -/
theorem Echo.idle (h : Echo calls c)
    (hreceived : call.received = []) (haccepted : call.accepted = [])
    (hread : c'.read = c.read) (hwrite : c'.write = c.write) (hwritten : c'.written = c.written) :
    Echo (calls ++ [call]) c' where
  read := by rw [received_snoc, hreceived, List.append_nil, hread, h.read]
  whole := by
    rw [hread, hwrite]
    exact h.whole
  written := by
    rw [hwritten, hwrite]
    exact h.written
  taken := by rw [accepted_snoc, haccepted, List.append_nil, hwritten, hwrite, h.taken]

/-- What a call leaves, whether it succeeds or fails. -/
def Leaves (calls : List (Call X)) (c : Connection) : Except (Failure X) Unit → Prop
  | .ok () => Echo calls c
  | .error failure => Safe calls ∧ Explains calls failure

theorem Echo.unfinished (h : Echo calls c) (hwrite : c.write = []) : frame.Unfinished c.read := by
  obtain ⟨hunfinished, -⟩ | ⟨⟨hheader, -⟩, hsame⟩ := h.whole
  · exact hunfinished
  · rw [← hsame, hwrite] at hheader
    exact absurd hheader (by decide)

/-- **A `read`.** -/
theorem Echo.reads (h : Echo calls c) (hwrite : c.write = [])
    {answer : Except (SocketError X) (List U8)}
    (hchunk : ∀ chunk, answer = .ok chunk → chunk.length ≤ 512)
    {result : Except (Failure X) Unit} (hreceive : c.receive answer = (c', result)) :
    Leaves (calls ++ [.read answer]) c' result := by
  have hunfinished := h.unfinished hwrite
  have hnone : accepted (calls ++ [.read answer]) = [] := by
    rw [accepted_snoc, h.taken, hwrite, List.take_nil]
    rfl
  have hsafe : Safe (calls ++ [.read answer]) := by
    rw [Safe, hnone]
    exact ⟨List.nil_prefix, fun hne => absurd rfl hne⟩
  have hchunk : ∀ {chunk}, answer = .ok chunk → chunk.length ≤ 512 ∧
      received (calls ++ [.read answer]) = c.read ++ chunk := by
    rintro chunk rfl
    rw [received_snoc, h.read]
    exact ⟨hchunk chunk rfl, rfl⟩
  have hreceives := receive_receives c answer
  rw [hreceive] at hreceives
  cases hreceives with
  | blocked => exact h.idle rfl rfl rfl rfl rfl
  | failed => exact ⟨hsafe, trivial⟩
  | closed =>
    refine ⟨hsafe, ?_⟩
    rw [Explains, (hchunk rfl).2, List.append_nil]
    exact hunfinished
  | long hlong =>
    obtain ⟨hlength, hreceived⟩ := hchunk rfl
    exact ⟨hsafe, c.read, _, hreceived, hunfinished, hlength, .inl (hreceived ▸ hlong)⟩
  | limit hheader hlimit =>
    obtain ⟨hlength, hreceived⟩ := hchunk rfl
    refine ⟨hsafe, c.read, _, hreceived, hunfinished, hlength, .inr ?_⟩
    rw [hreceived]
    exact ⟨hheader, hlimit⟩
  | more hpayload hne heq =>
    exact ⟨hsafe, _, _, hpayload, hne, (hchunk rfl).2.trans heq⟩
  | unfinished hagain =>
    refine ⟨(hchunk rfl).2.symm, .inl ⟨hagain, hwrite⟩, h.written, ?_⟩
    show accepted _ = c.write.take c.written
    rw [hnone, hwrite, List.take_nil]
  | whole hwhole =>
    have hzero : c.written = 0 := by
      have hle := h.written
      rw [hwrite] at hle
      exact Nat.le_zero.mp hle
    refine ⟨(hchunk rfl).2.symm, .inr ⟨hwhole, ?_⟩, ?_, ?_⟩
    · show c.write ++ _ = _
      rw [hwrite, List.nil_append]
    · show c.written ≤ _
      rw [hzero]
      exact Nat.zero_le _
    · show accepted _ = List.take c.written _
      rw [hnone, hzero, List.take_zero]

/-- **A `write`.** -/
theorem Echo.writes (h : Echo calls c) (hlt : c.written < c.write.length)
    {answer : Except (SocketError X) ℕ} (htaken : ∀ n, answer = .ok n → n ≤ c.unwritten.length)
    {result : Except (Failure X) Unit} (hsent : c.sent answer = (c', result)) :
    Leaves (calls ++ [.write c.unwritten answer]) c' result := by
  have hwhole : frame.Whole c.read ∧ c.write = c.read := by
    refine h.whole.resolve_left fun hnone => ?_
    rw [hnone.2] at hlt
    exact absurd hlt (Nat.not_lt_zero _)
  have hreceived : received (calls ++ [.write c.unwritten answer]) = c.read := by
    rw [received_snoc, h.read]
    exact List.append_nil _
  -- unless the socket takes something, what was taken is as before
  have hsafe : (∀ n, answer = .ok n → n = 0) → Safe (calls ++ [.write c.unwritten answer]) ∧
      accepted (calls ++ [.write c.unwritten answer]) = c.write.take c.written := by
    intro hnothing
    have hsame : accepted (calls ++ [.write c.unwritten answer]) = accepted calls := by
      rw [accepted_snoc]
      cases answer with
      | error => exact List.append_nil _
      | ok n =>
        rw [hnothing n rfl]
        exact List.append_nil _
    refine ⟨?_, hsame.trans h.taken⟩
    rw [Safe, hsame, hreceived, h.read]
    exact h.safe
  cases answer with
  | error error =>
    cases error with
    | wouldBlock =>
      cases hsent
      exact h.idle rfl rfl rfl rfl rfl
    | other source =>
      cases hsent
      exact ⟨(hsafe fun n heq => by cases heq).1, trivial⟩
  | ok n =>
    cases n with
    | zero =>
      cases hsent
      obtain ⟨hsafe, haccepted⟩ := hsafe fun n heq => by cases heq; rfl
      refine ⟨hsafe, ?_⟩
      rw [Explains, haccepted, hreceived]
      refine ⟨hwhole.1, fun heq => ?_⟩
      have hlength := congrArg List.length heq
      rw [List.length_take, ← hwhole.2] at hlength
      omega
    | succ n =>
      cases hsent
      have hle := htaken (n + 1) rfl
      rw [Connection.unwritten, List.length_drop] at hle
      refine ⟨hreceived.symm, .inr hwhole, ?_, ?_⟩
      · show c.written + (n + 1) ≤ c.write.length
        omega
      · show accepted _ = c.write.take (c.written + (n + 1))
        rw [accepted_snoc, h.taken, List.take_add]
        rfl

/-! ### Sessions -/

/-- What the calls of a session tell, wherever it is. -/
def Tells (calls : List (Call X)) (s : Session X) : Prop :=
  match s.stage with
  | .live => Echo calls s.connection
  | .closed => frame.Whole (received calls) ∧ accepted calls = received calls
  | .failed failure => Safe calls ∧ Explains calls failure

theorem Leaves.tells {result : Except (Failure X) Unit} (h : Leaves calls c result) :
    Tells calls ⟨c, .of result⟩ := by
  cases result <;> exact h

/-- Readiness moves no bytes. -/
theorem told_bytes (events : List PollEvent) : ∀ c : Connection,
    (events.foldl Connection.told c).read = c.read ∧
    (events.foldl Connection.told c).write = c.write ∧
    (events.foldl Connection.told c).written = c.written := by
  induction events with
  | nil => exact fun _ => ⟨rfl, rfl, rfl⟩
  | cons event events ih =>
    intro c
    cases event <;> exact ih _

/-- **What one call tells.** -/
theorem Acts.tells {s' : Session X} (hacts : Acts os c call s') (h : Echo calls c) :
    Tells (calls ++ [call]) s' := by
  cases hacts with
  | @poll batch =>
    obtain ⟨hread, hwrite, hwritten⟩ := told_bytes (translate batch) c
    exact h.idle rfl rfl hread hwrite hwritten
  | pollFails => exact ⟨(h.idle rfl rfl rfl rfl rfl : Echo _ c).safe, _, rfl⟩
  | read _ hwrite hchunk hreceive => exact (h.reads hwrite hchunk hreceive).tells
  | write _ hlt htaken hsent => exact (h.writes hlt htaken hsent).tells
  | reregister => exact h.idle rfl rfl rfl rfl rfl
  | reregisterFails => exact ⟨(h.idle rfl rfl rfl rfl rfl : Echo _ c).safe, _, rfl⟩
  | deregister hne hwritten =>
    have hidle : Echo (calls ++ [.registry .deregister]) c := h.idle rfl rfl rfl rfl rfl
    obtain ⟨-, hnone⟩ | ⟨hwhole, hsame⟩ := hidle.whole
    · exact absurd hnone hne
    · refine ⟨hidle.read ▸ hwhole, ?_⟩
      rw [hidle.taken, hwritten, List.take_length, hsame, hidle.read]
  | deregisterFails => exact ⟨(h.idle rfl rfl rfl rfl rfl : Echo _ c).safe, _, rfl⟩

theorem echo_new : Echo ([] : List (Call X)) .new :=
  ⟨rfl, .inl ⟨.inl (Nat.zero_lt_succ 3), rfl⟩, le_rfl, rfl⟩

/-- **What a session tells.** -/
theorem session_tells {s : Session X} (h : Steps (SessionStep os) ⟨.new, .live⟩ calls s) :
    Tells calls s := by
  refine h.invariant (I := Tells) ?_ ?_
  · exact echo_new
  · rintro tr u l v - htells hstep
    cases hstep with
    | act hacts => exact hacts.tells htells

theorem Tells.safe {s : Session X} (h : Tells calls s) : Safe calls := by
  obtain ⟨c, stage⟩ := s
  cases stage with
  | live => exact Echo.safe h
  | closed =>
    obtain ⟨hwhole, hsame⟩ := h
    exact ⟨hsame ▸ List.prefix_rfl, fun _ => hwhole⟩
  | failed => exact h.1

/-! ### Runs by evaluation -/

/-- The new reactor with events that it has not taken in. -/
def polled (events : List PollEvent) : FramedReactor :=
  ⟨⟨registered⟩, ⟨limits.events, events⟩, table .new, connectionToken, false, 0, 0, 0⟩

/-- The connection is ready to read and to write. -/
def readyEvent : BackendEvent := ⟨1, true, true, false, false, false, false, false, false⟩

/-- Nothing to do, then a wait. -/
theorem run_polled : ∃ tr, (system .linux Unit).Run tr
    ⟨polled [.resource connectionToken ⟨3⟩], .turning⟩ ∧
    tr.flatMap Label.calls = [.poll (.ok [readyEvent])] := by
  have hturn : (polled []).turn (X := Unit) .linux ⟨.ok [], ⟨fun _ => .error .wouldBlock,
      fun _ _ => .error .wouldBlock⟩, .ok (), .ok ()⟩
      = .ok ⟨{ polled [] with resources := (table .new).setSlot slot (.occupied 0 1 .new) }, [],
          .ok ⟨0, .wake⟩⟩ := rfl
  rw [setSlot_eq] at hturn
  have hwait : (polled []).waitForIo (.ok [readyEvent] : Except Unit _)
      = .ok ⟨polled [.resource connectionToken ⟨3⟩], [.poll (.ok [readyEvent])],
          .ok .notified⟩ := rfl
  have hbounded : Bounded (.ok [readyEvent] : Except Unit _) := by
    show 1 ≤ limits.events.get.val
    decide
  have hstart : (system .linux Unit).Run [] ⟨polled [], .turning⟩ := .start ⟨rfl, _, new_eq⟩
  have hidle := hstart.next (.turn _ rfl (Nat.zero_le _) hturn)
  have hstep := @Step.wait Unit .linux ⟨polled [], .waiting⟩ _ _ rfl hbounded hwait
  exact ⟨_, hidle.next hstep, rfl⟩

/-- Whether a turn returns, with such calls and such an answer. -/
def turnReturns (os : TargetOs) (r : FramedReactor) (answers : Answers X)
    (asked : List (Call X) → Turn → Bool) : Bool :=
  match r.turn os answers with
  | .ok ⟨_, calls, .ok turn⟩ => asked calls turn
  | _ => false

theorem run_turnReturns {tr : List (Label X)} {r : FramedReactor} {answers : Answers X}
    {asked : List (Call X) → Turn → Bool} (hasked : turnReturns os r answers asked = true)
    (hbounded : Bounded answers.polled) (h : (system os X).Run tr ⟨r, .turning⟩) :
    ∃ r' calls turn, asked calls turn = true ∧
      (system os X).Run (tr ++ [.turn calls (.ok turn)]) ⟨r', .afterTurn (.ok turn)⟩ := by
  rw [turnReturns] at hasked
  split at hasked
  · next r' calls turn hturn =>
    have hstep := Step.turn (s := ⟨r, .turning⟩) answers rfl hbounded hturn
    exact ⟨r', calls, turn, hasked, h.next hstep⟩
  · cases hasked

/-! ### Runs -/

/-- A peer that sends one frame is not turned away. -/
theorem Explains.of_begins {payload : List U8} {failure : Failure X} (h : Explains calls failure)
    (hpayload : payload.length ≤ maxFrame) (hbegins : received calls <+: frame.encode payload) :
    failure ≠ .frameLimit ∧ failure ≠ .notOneFrame := by
  have hlength := hbegins.length_le
  rw [Framing.Format.length_encode] at hlength
  constructor
  · rintro rfl
    obtain ⟨before, chunk, -, -, -, hlong | ⟨hheader, hlimit⟩⟩ := h
    · have hfits : frame.width + payload.length ≤ frame.width + maxFrame :=
        Nat.add_le_add_left hpayload _
      exact absurd hlong (not_lt.mpr (hlength.trans hfits))
    · obtain ⟨rest, hrest⟩ := hbegins
      have hclaimed : frame.claimed (received calls) = payload.length := by
        refine Framing.Format.claimed_encode hpayload ?_
        rw [← hrest, List.take_append_of_le_length hheader]
      rw [hclaimed] at hlimit
      exact absurd hpayload (not_le.mpr hlimit)
  · rintro rfl
    obtain ⟨first, rest, hfirst, hne, heq⟩ := h
    rw [heq] at hbegins hlength
    have hsame : first = payload :=
      Framing.Format.eq_of_begins hfirst hpayload ((List.prefix_append ..).trans hbegins)
    rw [List.length_append, Framing.Format.length_encode, hsame] at hlength
    have hrest := List.length_pos_iff.mpr hne
    omega

/-- **The reactor echoes one frame.**  Whatever portions the socket reads and writes in: what it
takes is the beginning of what it delivered, and it takes nothing before a whole frame was there.
A run that stops has read one frame and no more, and has written all of it.  A run that fails
says why.  A peer that sends one frame within the limit is neither turned away for it nor sent
anything else. -/
theorem framed_echo {tr : List (Label X)} {s : State X} (h : (system os X).Run tr s) :
    Safe (tr.flatMap Label.calls) ∧
    (s.pc = .stopped → ∃ payload, payload.length ≤ maxFrame ∧
      received (tr.flatMap Label.calls) = frame.encode payload ∧
      accepted (tr.flatMap Label.calls) = frame.encode payload) ∧
    (∀ failure, s.pc = .failed failure → Explains (tr.flatMap Label.calls) failure) ∧
    ∀ payload, payload.length ≤ maxFrame →
      received (tr.flatMap Label.calls) <+: frame.encode payload →
        s.pc ≠ .failed .frameLimit ∧ s.pc ≠ .failed .notOneFrame ∧
        accepted (tr.flatMap Label.calls) <+: frame.encode payload ∧
        (s.pc = .stopped → accepted (tr.flatMap Label.calls) = frame.encode payload) := by
  obtain ⟨c, hfollowed⟩ := run_session h
  have htells := session_tells hfollowed.steps
  have hsafe := htells.safe
  have hstopped : s.pc = .stopped → ∃ payload, payload.length ≤ maxFrame ∧
      received (tr.flatMap Label.calls) = frame.encode payload ∧
      accepted (tr.flatMap Label.calls) = frame.encode payload := by
    intro hpc
    rw [hpc] at htells
    obtain ⟨hwhole, hsame⟩ := htells
    obtain ⟨payload, hpayload, hencode⟩ := Framing.Format.whole_iff.mp hwhole
    exact ⟨payload, hpayload, hencode, hsame.trans hencode⟩
  have hfailed : ∀ failure, s.pc = .failed failure →
      Explains (tr.flatMap Label.calls) failure := by
    intro failure hpc
    rw [hpc] at htells
    exact htells.2
  refine ⟨hsafe, hstopped, hfailed, fun payload hpayload hbegins => ⟨?_, ?_, ?_, fun hpc => ?_⟩⟩
  · exact fun hpc => ((hfailed _ hpc).of_begins hpayload hbegins).1 rfl
  · exact fun hpc => ((hfailed _ hpc).of_begins hpayload hbegins).2 rfl
  · exact hsafe.1.trans hbegins
  · obtain ⟨sent, hsent, hreceived, haccepted⟩ := hstopped hpc
    rw [hreceived] at hbegins
    rw [haccepted, Framing.Format.eq_of_begins hsent hpayload hbegins]

/-- Three bytes, one and one are read, and two and three written. -/
theorem framed_echo_portions : ∃ tr s, (system .linux Unit).Run tr s ∧ s.pc = .stopped ∧
    received (tr.flatMap Label.calls) = frame.encode [97] ∧
    accepted (tr.flatMap Label.calls) = frame.encode [97] := by
  obtain ⟨tr, hpolled, hcalls⟩ := run_polled
  have hturns : turnReturns (X := Unit) .linux (polled [.resource connectionToken ⟨3⟩]) ⟨.ok [],
      ⟨fun left => .ok (if left = 7 then ⟨[0, 0, 0], by decide⟩
        else if left = 6 then ⟨[1], by decide⟩ else ⟨[97], by decide⟩),
      fun left _ => .ok (Fin.ofNat _ (if left = 4 then 2 else 3))⟩, .ok (), .ok ()⟩
      (fun calls turn => decide (received calls = frame.encode [97] ∧ turn.next = .stop))
      = true := by decide +kernel
  obtain ⟨r, calls, ⟨work, next⟩, hasked, hrun⟩ := run_turnReturns hturns (Nat.zero_le _) hpolled
  obtain ⟨hreceived, rfl⟩ := of_decide_eq_true hasked
  have hbytes : received ((tr ++ [Label.turn calls (.ok ⟨work, .stop⟩)]).flatMap Label.calls)
      = frame.encode [97] := by
    rw [List.flatMap_append, hcalls, List.flatMap_singleton]
    exact hreceived
  obtain ⟨-, -, -, hsent⟩ := framed_echo hrun
  obtain ⟨-, -, -, hechoed⟩ := hsent [97] (by decide) (hbytes ▸ List.prefix_rfl)
  exact ⟨_, _, hrun, rfl, hbytes, hechoed rfl⟩

end FramedReactor

end Calandria
