/-
What the echoing reactor makes of readiness.

Mio tells of readiness once, and again only after a call has found nothing to do.

* `Drained` — a call has blocked since the last readiness of a kind;
* `Heeds` — until then the connection remembers it;
* `framed_readiness` — the reactor does not wait on a readiness that it has been told of.
-/
import Calandria.FramedEcho

namespace Calandria

namespace FramedReactor

variable {X : Type} {os : TargetOs} {calls : List (Call X)} {call : Call X} {c c' : Connection}

/-! ### Calls that block -/

/-- The event says that there is something to read. -/
def readableEvent : PollEvent → Bool
  | .wake => false
  | .resource _ readiness =>
    readiness.observes 1 || readiness.observes 4 || readiness.observes 16

/-- The event says that there is room to write. -/
def writableEvent : PollEvent → Bool
  | .wake => false
  | .resource _ readiness =>
    readiness.observes 2 || readiness.observes 8 || readiness.observes 16

/-- The call polls an event of a kind. -/
def Call.polls (kind : PollEvent → Bool) : Call X → Bool
  | .poll (.ok batch) => (translate batch).any kind
  | _ => false

def Call.readBlocks : Call X → Bool
  | .read (.error .wouldBlock) => true
  | _ => false

def Call.writeBlocks : Call X → Bool
  | .write _ (.error .wouldBlock) => true
  | _ => false

/-- After each poll of such an event there was a call that blocked. -/
def Drained (kind : PollEvent → Bool) (blocks : Call X → Bool) (calls : List (Call X)) : Prop :=
  ∀ before first after, calls = before ++ first :: after → first.polls kind = true →
    ∃ later ∈ after, blocks later = true

variable {kind : PollEvent → Bool} {blocks : Call X → Bool}

theorem drained_nil : Drained kind blocks [] := by
  intro before first after heq
  exact absurd heq.symm (List.append_ne_nil_of_right_ne_nil _ (List.cons_ne_nil _ _))

theorem Drained.snoc (h : Drained kind blocks calls) (hcall : call.polls kind = false) :
    Drained kind blocks (calls ++ [call]) := by
  intro before first after heq hfirst
  obtain ⟨-, -, rfl⟩ | ⟨middle, rfl, hcalls⟩ := snoc_eq_append_cons heq
  · rw [hcall] at hfirst
    cases hfirst
  · obtain ⟨later, hmem, hblocks⟩ := h before first middle hcalls hfirst
    exact ⟨later, List.mem_append_left _ hmem, hblocks⟩

theorem drained_blocked (hcall : call.polls kind = false) (hblocks : blocks call = true) :
    Drained kind blocks (calls ++ [call]) := by
  intro before first after heq hfirst
  obtain ⟨-, -, rfl⟩ | ⟨middle, rfl, -⟩ := snoc_eq_append_cons heq
  · rw [hcall] at hfirst
    cases hfirst
  · exact ⟨call, List.mem_append_right _ List.mem_cons_self, hblocks⟩

/-- The connection remembers readiness until a call has blocked. -/
structure Heeds (calls : List (Call X)) (c : Connection) : Prop where
  reads : c.readReady = true ∨ c.write ≠ [] ∨ Drained readableEvent Call.readBlocks calls
  writes : c.writeReady = true ∨ Drained writableEvent Call.writeBlocks calls

theorem told_flags (events : List PollEvent) : ∀ c : Connection,
    (events.foldl Connection.told c).readReady = (c.readReady || events.any readableEvent) ∧
    (events.foldl Connection.told c).writeReady = (c.writeReady || events.any writableEvent) := by
  induction events with
  | nil => exact fun c => ⟨(Bool.or_false _).symm, (Bool.or_false _).symm⟩
  | cons event events ih =>
    intro c
    obtain ⟨hreads, hwrites⟩ := ih (c.told event)
    rw [List.foldl_cons, List.any_cons, List.any_cons, hreads, hwrites]
    cases event with
    | wake => exact ⟨rfl, rfl⟩
    | resource => exact ⟨Bool.or_assoc .., Bool.or_assoc ..⟩

/-- A `read` that succeeds leaves the readiness, unless it blocks or completes the frame. -/
theorem receive_flags {answer : Except (SocketError X) (List U8)} (hready : c.readReady = true)
    (h : c.receive answer = (c', .ok ())) : c'.writeReady = c.writeReady ∧
      (c'.readReady = true ∨ c'.write ≠ [] ∨ answer = .error .wouldBlock) := by
  have hreceives := receive_receives c answer
  rw [h] at hreceives
  cases hreceives with
  | blocked => exact ⟨rfl, .inr (.inr rfl)⟩
  | unfinished => exact ⟨rfl, .inl hready⟩
  | whole hwhole =>
    refine ⟨rfl, .inr (.inl ?_)⟩
    have hheader : 4 ≤ _ := hwhole.1
    exact List.append_ne_nil_of_right_ne_nil _ (List.ne_nil_of_length_pos (by omega))

theorem sent_flags {answer : Except (SocketError X) ℕ} (h : c.sent answer = (c', .ok ())) :
    c'.writeReady = c.writeReady ∨ answer = .error .wouldBlock := by
  rcases answer with (_ | _) | (_ | _)
  · exact .inr rfl
  · cases h
  · cases h
  · cases h
    exact .inl rfl

/-- **What one call does to the readiness.** -/
theorem Acts.heeds {s' : Session X} (hacts : Acts os c call s') (hlive : s'.stage = .live)
    (h : Heeds calls c) : Heeds (calls ++ [call]) s'.connection := by
  cases hacts with
  | @poll batch =>
    obtain ⟨-, hwrite, -⟩ := told_bytes (translate batch) c
    obtain ⟨hreads, hwrites⟩ := told_flags (translate batch) c
    constructor
    · rw [hreads, hwrite]
      cases hany : (translate batch).any readableEvent with
      | true => exact .inl (Bool.or_true _)
      | false =>
        rw [Bool.or_false]
        exact h.reads.imp_right (Or.imp_right fun hdrained => hdrained.snoc hany)
    · rw [hwrites]
      cases hany : (translate batch).any writableEvent with
      | true => exact .inl (Bool.or_true _)
      | false =>
        rw [Bool.or_false]
        exact h.writes.imp_right fun hdrained => hdrained.snoc hany
  | @read answer c' result hready hwrite hchunk hreceive =>
    cases result with
    | error => cases hlive
    | ok =>
      obtain ⟨hwrites, hreads⟩ := receive_flags hready hreceive
      constructor
      · refine hreads.imp_right (Or.imp_right fun hblocked => ?_)
        rw [hblocked]
        exact drained_blocked rfl rfl
      · rw [hwrites]
        exact h.writes.imp_right fun hdrained => hdrained.snoc rfl
  | @write answer c' result hready hlt htaken hsent =>
    cases result with
    | error => cases hlive
    | ok =>
      have hframe := sent_frame c answer
      rw [hsent] at hframe
      obtain ⟨hreads, hwrite⟩ := hframe
      constructor
      · rw [hreads, hwrite]
        exact h.reads.imp_right (Or.imp_right fun hdrained => hdrained.snoc rfl)
      · obtain hsame | hblocked := sent_flags hsent
        · exact .inl (hsame.trans hready)
        · rw [hblocked]
          exact .inr (drained_blocked rfl rfl)
  | reregister =>
    exact ⟨h.reads.imp_right (Or.imp_right fun hdrained => hdrained.snoc rfl),
      h.writes.imp_right fun hdrained => hdrained.snoc rfl⟩
  | pollFails | reregisterFails | deregister | deregisterFails => cases hlive

theorem session_heeds {s : Session X} (h : Steps (SessionStep os) ⟨.new, .live⟩ calls s) :
    s.stage = .live → Heeds calls s.connection := by
  refine h.invariant (I := fun calls s => s.stage = .live → Heeds calls s.connection) ?_ ?_
  · exact fun _ => ⟨.inr (.inr drained_nil), .inr drained_nil⟩
  · rintro tr u l v - hheeds hstep hlive
    cases hstep with
    | act hacts => exact hacts.heeds hlive (hheeds rfl)

/-- **No readiness is lost.**  No turn and no wait of a run reaches an internal panic, and no
event is about anything but the connection.  When the reactor waits it has taken in what was
polled, Mio has been told the interest that the connection has, and a read has blocked since the
last readiness to read unless the frame is there; if it is, and not all of it is written, then a
write has blocked since the last readiness to write.  When the reactor stops, neither the table
nor the poller has the connection any more. -/
theorem framed_readiness {tr : List (Label X)} {s : State X} (h : (system os X).Run tr s) :
    s.reactor.staleResourceEvents = 0 ∧
    (s.pc = .turning → ∀ answers : Answers X, Bounded answers.polled →
      ∃ done, s.reactor.turn os answers = .ok done) ∧
    (s.pc = .waiting → ∀ polled : Except X (List BackendEvent), Bounded polled →
      ∃ done, s.reactor.waitForIo polled = .ok done) ∧
    (s.pc = .waiting → s.reactor.events.events = [] ∧ s.reactor.pollSaturated = false ∧
      (∃ c, s.reactor.resources.get s.reactor.token = .ok (1, c) ∧
        c.interest = c.desiredInterest) ∧
      (¬frame.Whole (received (tr.flatMap Label.calls)) →
        Drained readableEvent Call.readBlocks (tr.flatMap Label.calls)) ∧
      (frame.Whole (received (tr.flatMap Label.calls)) →
        accepted (tr.flatMap Label.calls) ≠ received (tr.flatMap Label.calls) →
        Drained writableEvent Call.writeBlocks (tr.flatMap Label.calls))) ∧
    (s.pc = .stopped → s.reactor.resources = emptied ∧ s.reactor.poller = ⟨deregistered⟩) := by
  obtain ⟨c, hfollowed⟩ := run_session h
  have hready := hfollowed.ready
  rw [Ready] at hready
  refine ⟨hfollowed.stale, ?_, ?_, ?_, ?_⟩
  · intro hpc answers hbounded
    rw [hpc] at hready
    obtain ⟨done, hdone, -⟩ := turn_follows os hready hbounded
    exact ⟨done, hdone⟩
  · intro hpc polled hbounded
    rw [hpc] at hready
    obtain ⟨done, hdone, -⟩ := wait_follows os hready.1 hbounded
    exact ⟨done, hdone⟩
  · intro hpc
    rw [hpc] at hready
    obtain ⟨hopen, hsynced, hsaturated, hlocal⟩ := hready
    have hlive : s.pc.stage = .live := by
      rw [hpc]
      rfl
    have hheeds := session_heeds hfollowed.steps hlive
    have hecho := session_tells hfollowed.steps
    rw [hlive] at hecho
    obtain ⟨hreads, hwrites⟩ := Bool.or_eq_false_iff.mp hlocal
    refine ⟨hopen.events, hsaturated, ⟨c, ?_, hsynced⟩, fun hmore => ?_, fun hwhole hrest => ?_⟩
    · rw [hopen.token, hopen.resources]
      rfl
    · have hwrite := (hecho.whole.resolve_right fun hfull => hmore (hecho.read ▸ hfull.1)).2
      have hdrained := hheeds.reads.resolve_left (ne_true_of_eq_false hreads)
      exact hdrained.resolve_left (not_not.mpr hwrite)
    · have hlt := hecho.written_lt hwhole hrest
      rw [decide_eq_true hlt, Bool.and_true] at hwrites
      exact hheeds.writes.resolve_left (ne_true_of_eq_false hwrites)
  · intro hpc
    rw [hpc] at hready
    exact hready

/-- Three bytes of a frame are there, then the read blocks; there was room to write all along. -/
theorem framed_readiness_partial : ∃ tr s, (system .linux Unit).Run tr s ∧ s.pc = .waiting ∧
    received (tr.flatMap Label.calls) = [0, 0, 0] ∧
    Drained readableEvent Call.readBlocks (tr.flatMap Label.calls) := by
  obtain ⟨tr, hpolled, hcalls⟩ := run_polled
  have hturns : turnReturns (X := Unit) .linux (polled [.resource connectionToken ⟨3⟩]) ⟨.ok [],
      ⟨fun left => if left = 7 then .ok ⟨[0, 0, 0], by decide⟩ else .error .wouldBlock,
      fun _ _ => .error .wouldBlock⟩, .ok (), .ok ()⟩
      (fun calls turn => decide (received calls = [0, 0, 0] ∧ turn.next = .wake))
      = true := by decide +kernel
  obtain ⟨r, calls, ⟨work, next⟩, hasked, hrun⟩ := run_turnReturns hturns (Nat.zero_le _) hpolled
  obtain ⟨hreceived, rfl⟩ := of_decide_eq_true hasked
  have hbytes : received ((tr ++ [Label.turn calls (.ok ⟨work, .wake⟩)]).flatMap Label.calls)
      = [0, 0, 0] := by
    rw [List.flatMap_append, hcalls, List.flatMap_singleton]
    exact hreceived
  obtain ⟨-, -, -, hwaiting, -⟩ := framed_readiness hrun
  obtain ⟨-, -, -, hdrained, -⟩ := hwaiting rfl
  refine ⟨_, _, hrun, rfl, hbytes, hdrained fun hwhole => ?_⟩
  rw [hbytes] at hwhole
  exact absurd hwhole.1 (by decide)

end FramedReactor

end Calandria
