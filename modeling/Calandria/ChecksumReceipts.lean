/-
What the clients of the checksum service get.

A request is at any moment in one place: with its client, in a lane, in the scratch, or
handled.  So its completer is used once, by the turn that applies the request, or by the
shard as it is dropped.

* `Step.called`, `Step.cell_cases` — a run of the service is a run of its mailbox
  and of each of its completions;
* `Inv`, `Inv.next` — where the commands and the completers are;
* `checksum_service` — what this says of every interleaving.
-/
import Calandria.ChecksumService

namespace Calandria

namespace Completion

variable {T W : Type} {willWake : W → W → Bool} {tr : List (Event T)} {s s' : Pair T W}

/-! ### The producer's end -/

/-- The ends of the producer that are still to be used. -/
def ProducerPc.unused : ProducerPc W → ℕ
  | .holding => 1
  | .notifying _ | .waking _ | .done => 0

theorem ProducerPc.unused_eq_one {pc : ProducerPc W} : pc.unused = 1 ↔ pc = .holding := by
  cases pc <;> simp [unused]

theorem Step.unused {event : Event T} (h : Step willWake s event s') :
    (if event.settles then 1 else 0) + s'.producer.unused = s.producer.unused := by
  cases h with
  | complete hholding | close hholding => rw [hholding]; rfl
  | notify hpc | wake hpc => rw [hpc]; rfl
  | _ => exact Nat.zero_add _

end Completion

namespace ChecksumService

open Completion (Pair)
open Mailbox (Shared Performed)

variable {V W : Type} {willWake : W → W → Bool}

/-! ### What a step shows -/

namespace Label

/-- The call on the mailbox. -/
def call : Label V → Option (Performed Command Command V)
  | client call | drain call | close call | drop call => some call
  | create _ | cell _ _ | apply _ _ | settle | finish _ | discard _ => none

/-- What goes into the lane. -/
def sent (lane : Lane) (l : Label V) : List Command :=
  l.call.elim [] fun call => Mailbox.values (Mailbox.accepted lane call)

/-- What comes out of the lane. -/
def taken (lane : Lane) (l : Label V) : List Command :=
  l.call.elim [] fun call => Mailbox.values (Mailbox.handedOut lane call.1 call.2.1)

/-- What comes out of both. -/
def batch (l : Label V) : List Command := l.taken .control ++ l.taken .work

def applied : Label V → List Command
  | apply command _ => [command]
  | _ => []

def discarded : Label V → List Command
  | discard command => [command]
  | _ => []

def handled (l : Label V) : List Command := l.applied ++ l.discarded

/-- What happens to a completion; `id` is the shard's. -/
def events (id : ReactorId) (i : ℕ) : Label V → List (Completion.Event Receipt)
  | cell j event => if j = i then [event] else []
  | apply (.digest request payload j) result =>
    if j = i then [.complete ⟨request, id, checksum payload.bytes⟩ result] else []
  | discard (.digest _ _ j) => if j = i then [.close] else []
  | _ => []

end Label

variable {s s' : State W} {l : Label V}

/-- A step calls on the mailbox, or leaves it. -/
theorem Step.called (h : Step willWake s l s') :
    (l.call = none ∧ s'.mailbox = s.mailbox) ∨ ∃ call, l.call = some call ∧ call.1 = s.mailbox ∧
      Mailbox.exec s.mailbox call.2.1 = .ok (s'.mailbox, call.2.2) := by
  cases h with
  | send woken _ _ hsend =>
    refine .inr ⟨_, rfl, rfl, ?_⟩
    rw [Mailbox.exec, hsend]
  | clone _ hclone =>
    refine .inr ⟨_, rfl, rfl, ?_⟩
    rw [Mailbox.exec, hclone]
    rfl
  | dropSender => exact .inr ⟨_, rfl, rfl, rfl⟩
  | drain _ hdrain =>
    refine .inr ⟨_, rfl, rfl, ?_⟩
    rw [Mailbox.exec, hdrain]
    rfl
  | close _ _ _ _ _ hclose | drop _ hclose =>
    refine .inr ⟨_, rfl, rfl, ?_⟩
    rw [Mailbox.exec, hclose]
    rfl
  | create | cell | applyDigest | applyStop | settle | finish | discardDigest | discardStop =>
    exact .inl ⟨rfl, rfl⟩

/-- The mailbox is well formed. -/
abbrev Kept (mailbox : Shared Command) : Prop :=
  Mailbox.Inv serviceLimits Command.retainedBytes mailbox

theorem Step.kept (h : Step willWake s l s') (hkept : Kept s.mailbox) : Kept s'.mailbox := by
  rcases h.called with ⟨-, hsame⟩ | ⟨call, -, -, hexec⟩
  · rwa [hsame]
  · exact (Mailbox.exec_executes hkept hexec).inv

/-- What is sent goes to the back of its lane, and what is taken comes from the front. -/
theorem Step.lanes (h : Step willWake s l s') (hkept : Kept s.mailbox) (lane : Lane) :
    Mailbox.values (s.mailbox.state.lane lane).queue ++ l.sent lane
      = l.taken lane ++ Mailbox.values (s'.mailbox.state.lane lane).queue := by
  rcases h.called with ⟨hnone, hsame⟩ | ⟨call, hcall, hbefore, hexec⟩
  · rw [Label.sent, Label.taken, hnone, hsame]
    exact List.append_nil _
  · obtain ⟨before, op, reply⟩ := call
    obtain rfl : before = s.mailbox := hbefore
    rw [Label.sent, Label.taken, hcall]
    show Mailbox.values _ ++ Mailbox.values _ = Mailbox.values _ ++ Mailbox.values _
    rw [Mailbox.values, Mailbox.values, Mailbox.values, Mailbox.values, ← List.map_append,
      ← List.map_append]
    exact congrArg _ ((Mailbox.exec_executes hkept hexec).conserved lane)

/-- Only the shard ends the receiver. -/
theorem Step.receiver (h : Step willWake s l s')
    (hopen : ∀ call, l.call = some call → Mailbox.closes call = false) :
    s'.mailbox.state.receiverAlive = s.mailbox.state.receiverAlive := by
  rcases h.called with ⟨-, hsame⟩ | ⟨call, hcall, hbefore, hexec⟩
  · rw [hsame]
  · have hends : _ = (s.mailbox.state.receiverAlive && !Mailbox.closes (s.mailbox, call.2)) :=
      (Mailbox.exec_ends hexec).receiver
    rw [hends, ← hbefore, show (call.1, call.2) = call from rfl, hopen call hcall, Bool.not_false,
      Bool.and_true]

theorem status_eq_closed {state : Mailbox.State Command} :
    state.status = .closed ↔
      (∀ lane, (state.lane lane).queue = []) ∧
      (state.receiverAlive = false ∨ state.senders = 0) := by
  rw [← state.isEmpty_iff, Mailbox.State.status]
  cases state.isEmpty <;> cases state.receiverAlive <;> by_cases h : state.senders = 0 <;> simp [h]

/-- A closed mailbox lets nothing in. -/
theorem Step.sent_of_closed (h : Step willWake s l s') (hkept : Kept s.mailbox)
    (hclosed : s.mailbox.state.status = .closed) (lane : Lane) : l.sent lane = [] := by
  cases h with
  | @send target command mailbox result woken hsenders _ hsend =>
    have halive := (status_eq_closed.mp hclosed).2.resolve_right hsenders
    obtain ⟨mailbox', result', hsend', -, hsends, -⟩ :=
      Mailbox.trySendMaterialized_sends hkept target command s.mailbox.measure id woken
    rw [Shared.trySendTo, hsend'] at hsend
    cases hsend
    cases result with
    | ok => exact absurd (.closed halive) (hsends.ok.mp rfl .closed)
    | error => rfl
  | _ => rfl

/-- And stays closed. -/
theorem Step.closed (h : Step willWake s l s') (hkept : Kept s.mailbox)
    (hclosed : s.mailbox.state.status = .closed) : s'.mailbox.state.status = .closed := by
  obtain ⟨hempty, hends⟩ := status_eq_closed.mp hclosed
  refine status_eq_closed.mpr ⟨fun lane => ?_, ?_⟩
  · have hlanes := h.lanes hkept lane
    rw [h.sent_of_closed hkept hclosed, hempty lane] at hlanes
    exact List.map_eq_nil_iff.mp (List.append_eq_nil_iff.mp hlanes.symm).2
  · rcases h.called with ⟨-, hsame⟩ | ⟨call, hcall, hbefore, hexec⟩
    · rwa [hsame]
    · have hmoved := Mailbox.exec_ends hexec
      rcases hends with halive | hsenders
      · left
        rw [hmoved.receiver, halive, Bool.false_and]
      · right
        have hbegun : Mailbox.begun (s.mailbox, call.2) = 0 := by
          cases h with
          | clone hne => exact absurd hsenders hne
          | send _ hne => exact absurd hsenders hne
          | dropSender | drain | close | drop => cases hcall; rfl
          | _ => cases hcall
        have hsum : _ + Mailbox.ended (s.mailbox, call.2)
          = s.mailbox.state.senders.val + Mailbox.begun (s.mailbox, call.2) := hmoved.senders
        rw [hbegun, hsenders] at hsum
        exact Fin.ext (Nat.eq_zero_of_add_eq_zero_right hsum)

/-! ### Where the commands are -/

/-- What the place of the duty says. -/
def Fits (s : State W) : ShardPc → Prop
  | .idle => s.shard.scratch = []
  | .turning pass =>
    (pass.closed = true → pass.stopping = true ∧ s.mailbox.state.receiverAlive = false) ∧
      (pass.report.status = .closed → s.mailbox.state.status = .closed)
  | .stopped => s.shard.scratch = [] ∧ s.mailbox.state.status = .closed
  | .dropping => True

/-- The commands in the lanes and in the scratch. -/
def State.inside (s : State W) : List Command :=
  Mailbox.values s.mailbox.state.control.queue ++ Mailbox.values s.mailbox.state.work.queue
    ++ s.shard.scratch

/-- The completer is as it was made. -/
def State.fresh (s : State W) (i : ℕ) : Prop :=
  ∃ pair, s.cells i = some pair ∧ pair.producer = .holding

/-- Whose the completers are. -/
structure Owned (s : State W) : Prop where
  nodup : (s.inside.filterMap Command.completer).Nodup
  inside : ∀ i ∈ s.inside.filterMap Command.completer, s.held i = false ∧ s.fresh i
  held : ∀ i, s.held i = true → s.fresh i

structure Inv (s : State W) : Prop where
  kept : Kept s.mailbox
  fits : Fits s s.pc
  owned : Owned s

/-- **Order**: the scratch is handled from its front, and is empty when it is filled. -/
theorem Step.order (h : Step willWake s l s') (hinv : Inv s) :
    s.shard.scratch ++ l.batch = l.handled ++ s'.shard.scratch := by
  have hfits := hinv.fits
  have hclosed : ∀ {mailbox items}, s.mailbox.closeInner = .ok (mailbox, items) →
      items = Mailbox.values s.mailbox.state.control.queue
        ++ Mailbox.values s.mailbox.state.work.queue := by
    intro mailbox items hclose
    obtain ⟨_, hclose', -⟩ := Shared.closeInner_cases hinv.kept.lanes
    rw [hclose'] at hclose
    cases hclose
    rfl
  cases h with
  | drain hpc hdrain =>
    rw [hpc] at hfits
    obtain ⟨_, hdrain', -⟩ := Shared.drainInto_cases hinv.kept.lanes [] turnBudget
    rw [hdrain'] at hdrain
    cases hdrain
    rw [show s.shard.scratch = [] from hfits]
    rfl
  | close _ _ hscratch _ _ hclose =>
    rw [hscratch, hclosed hclose]
    rfl
  | drop hpc hclose =>
    have hscratch : s.shard.scratch = [] := by
      rcases hpc with hpc | hpc
      · rw [hpc] at hfits
        exact hfits
      · rw [hpc] at hfits
        exact hfits.1
    rw [hscratch, hclosed hclose]
    rfl
  | applyDigest _ _ hscratch | applyStop _ _ hscratch | discardDigest _ hscratch
  | discardStop _ hscratch =>
    rw [hscratch]
    exact List.append_nil _
  | _ => exact List.append_nil _

/-- So no command is lost or made on the way. -/
theorem Step.inside (h : Step willWake s l s') (hinv : Inv s) :
    (s.inside ++ (l.sent .control ++ l.sent .work)).Perm (l.handled ++ s'.inside) := by
  classical
  rw [List.perm_iff_count]
  intro command
  have hcontrol := congrArg (List.count command) (h.lanes hinv.kept .control)
  have hwork := congrArg (List.count command) (h.lanes hinv.kept .work)
  have horder := congrArg (List.count command) (h.order hinv)
  simp only [State.inside, Label.batch, Mailbox.State.lane, List.count_append] at *
  omega

theorem Step.fits (h : Step willWake s l s') (hinv : Inv s) : Fits s' s'.pc := by
  have hfits := hinv.fits
  have hclosed : s.mailbox.state.status = .closed → s'.mailbox.state.status = .closed :=
    h.closed hinv.kept
  have hreceiver := h.receiver
  -- what the clients do is not seen from the duty's place
  have hmove : s'.pc = s.pc → s'.shard = s.shard →
      s'.mailbox.state.receiverAlive = s.mailbox.state.receiverAlive → Fits s' s'.pc := by
    intro hpc hshard halive
    rw [hpc]
    cases hat : s.pc with
    | idle =>
      rw [hat] at hfits
      show s'.shard.scratch = []
      rw [hshard]
      exact hfits
    | turning pass =>
      rw [hat] at hfits
      refine ⟨fun hsecond => ?_, fun hstatus => hclosed (hfits.2 hstatus)⟩
      rw [halive]
      exact hfits.1 hsecond
    | stopped =>
      rw [hat] at hfits
      refine ⟨?_, hclosed hfits.2⟩
      rw [hshard]
      exact hfits.1
    | dropping => trivial
  cases h with
  | create | cell => exact hmove rfl rfl rfl
  | send | clone | dropSender =>
    refine hmove rfl rfl (hreceiver fun call hcall => ?_)
    cases hcall
    rfl
  | drain _ hdrain =>
    obtain ⟨_, hdrain', -⟩ := Shared.drainInto_cases hinv.kept.lanes [] turnBudget
    rw [hdrain'] at hdrain
    cases hdrain
    exact ⟨nofun, fun hstatus => hstatus⟩
  | applyDigest hpc | settle hpc =>
    rw [hpc] at hfits
    exact hfits
  | applyStop hpc =>
    rw [hpc] at hfits
    exact ⟨fun hsecond => ⟨rfl, (hfits.1 hsecond).2⟩, hfits.2⟩
  | close hpc _ _ hstopping _ hclose =>
    rw [hpc] at hfits
    refine ⟨fun _ => ⟨hstopping, ?_⟩, fun hstatus => hclosed (hfits.2 hstatus)⟩
    show Mailbox.State.receiverAlive _ = false
    rw [Shared.closeInner_frame hclose]
  | @finish pass hpc _ hscratch hsecond =>
    rw [hpc] at hfits
    show Fits _ (if pass.finish.next = .stop then .stopped else .idle)
    by_cases hstop : pass.finish.next = .stop
    · rw [if_pos hstop]
      refine ⟨hscratch, ?_⟩
      by_cases hstopping : pass.stopping = true
      · obtain ⟨-, halive⟩ := hfits.1 (hsecond hstopping)
        exact status_eq_closed.mpr ⟨hinv.kept.closed halive, .inl halive⟩
      · refine hfits.2 ?_
        by_contra hstatus
        rw [Pass.finish] at hstop
        split_ifs at hstop with hcase
        simp [hstopping, hstatus] at hcase
    · rw [if_neg hstop]
      exact hscratch
  | drop => trivial
  | discardDigest hpc | discardStop hpc =>
    show Fits _ s.pc
    rw [hpc]
    trivial

/-! ### Where the completers are -/

/-- The completers in the lanes and in the scratch. -/
def State.routed (s : State W) : List ℕ := s.inside.filterMap Command.completer

theorem Step.routed (h : Step willWake s l s') (hinv : Inv s) :
    (s.routed ++ (l.sent .control ++ l.sent .work).filterMap Command.completer).Perm
      (l.handled.filterMap Command.completer ++ s'.routed) := by
  rw [State.routed, State.routed, ← List.filterMap_append, ← List.filterMap_append]
  exact (h.inside hinv).filterMap _

/-- Nothing has moved but between the lanes and the scratch. -/
theorem Owned.same (h : Owned s) (hperm : s.routed.Perm s'.routed) (hheld : s'.held = s.held)
    (hcells : s'.cells = s.cells) : Owned s' := by
  have hfresh : ∀ i, s'.fresh i ↔ s.fresh i := fun i => by rw [State.fresh, State.fresh, hcells]
  refine ⟨hperm.nodup_iff.mp h.nodup, fun i hi => ?_, fun i hi => ?_⟩
  · rw [hheld, hfresh]
    exact h.inside i (hperm.mem_iff.mpr hi)
  · rw [hheld] at hi
    exact (hfresh i).mpr (h.held i hi)

theorem State.fresh_setCell {i j : ℕ} {pair : Pair Receipt W} (h : s.fresh j) (hji : j ≠ i) :
    (s.setCell i pair).fresh j := by
  obtain ⟨pair', hcell, hholding⟩ := h
  exact ⟨pair', (Function.update_of_ne hji ..).trans hcell, hholding⟩

/-- A command with its completer is handled. -/
theorem Owned.handle (h : Owned s) {i : ℕ} (hperm : s.routed.Perm (i :: s'.routed))
    (hheld : s'.held = s.held) (hcells : ∀ j ≠ i, s'.cells j = s.cells j) : Owned s' := by
  have hnodup := List.nodup_cons.mp (hperm.nodup_iff.mp h.nodup)
  have hfresh : ∀ j ≠ i, s.fresh j → s'.fresh j := fun j hji => by
    rw [State.fresh, State.fresh, hcells j hji]
    exact id
  refine ⟨hnodup.2, fun j hj => ?_, fun j hj => ?_⟩
  · have hji : j ≠ i := fun heq => hnodup.1 (heq ▸ hj)
    obtain ⟨hnot, hj'⟩ := h.inside j (hperm.mem_iff.mpr (List.mem_cons_of_mem _ hj))
    exact ⟨hheld ▸ hnot, hfresh j hji hj'⟩
  · rw [hheld] at hj
    refine hfresh j (fun heq => ?_) (h.held j hj)
    have hnot := (h.inside i (hperm.mem_iff.mpr List.mem_cons_self)).1
    rw [← heq, hj] at hnot
    cases hnot

/-- A client has sent a command away, with its completer. -/
theorem Owned.sent (h : Owned s) {command : Command} (howns : s.owns command)
    (hheld : ∀ i, s'.held i = (s.held i && decide (command.completer ≠ some i)))
    (hcells : s'.cells = s.cells)
    (hperm : (s.routed ++ command.completer.toList).Perm s'.routed) : Owned s' := by
  have hfresh : ∀ i, s'.fresh i ↔ s.fresh i := fun i => by rw [State.fresh, State.fresh, hcells]
  have hmem : ∀ i, i ∈ s'.routed ↔ i ∈ s.routed ∨ command.completer = some i := by
    intro i
    rw [← hperm.mem_iff, List.mem_append, Option.mem_toList]
  refine ⟨hperm.nodup_iff.mp (List.nodup_append.mpr ⟨h.nodup, Option.toList_nodup _, ?_⟩),
    fun i hi => ?_, fun i hi => ?_⟩
  · rintro i hi j hj rfl
    have hheld := (h.inside i hi).1
    rw [howns i (Option.mem_toList.mp hj)] at hheld
    cases hheld
  · rw [hheld, hfresh]
    rcases (hmem i).mp hi with hi | hi
    · obtain ⟨hfree, hfresh⟩ := h.inside i hi
      exact ⟨by rw [hfree, Bool.false_and], hfresh⟩
    · exact ⟨by simp [hi], h.held i (howns i hi)⟩
  · rw [hheld] at hi
    exact (hfresh i).mpr (h.held i (Bool.and_eq_true_iff.mp hi).1)

/-- A client has done something with a completion. -/
theorem Owned.cell (h : Owned s) {i : ℕ} {pair pair' : Pair Receipt W}
    {event : Completion.Event Receipt} (hcell : s.cells i = some pair)
    (hstep : Completion.Step willWake pair event pair')
    (hheld : event.settles = true → s.held i = true) (hperm : s.routed.Perm s'.routed)
    (hcells : s'.cells = (s.setCell i pair').cells)
    (hheld' : s'.held = if event.settles then Function.update s.held i false else s.held) :
    Owned s' := by
  have hkeep : ∀ {j}, s.fresh j → j ≠ i → s'.fresh j := by
    intro j hj hji
    rw [State.fresh, hcells]
    exact State.fresh_setCell hj hji
  by_cases hsettles : event.settles = true
  · rw [if_pos hsettles] at hheld'
    refine ⟨hperm.nodup_iff.mp h.nodup, fun j hj => ?_, fun j hj => ?_⟩
    · obtain ⟨hfree, hfresh⟩ := h.inside j (hperm.mem_iff.mpr hj)
      have hji : j ≠ i := by
        rintro rfl
        rw [hheld hsettles] at hfree
        cases hfree
      rw [hheld', Function.update_of_ne hji]
      exact ⟨hfree, hkeep hfresh hji⟩
    · have hji : j ≠ i := by
        rintro rfl
        rw [hheld', Function.update_self] at hj
        cases hj
      rw [hheld', Function.update_of_ne hji] at hj
      exact hkeep (h.held j hj) hji
  · rw [if_neg hsettles] at hheld'
    -- the event leaves the producer's end as it is
    have hfresh : ∀ {j}, s.fresh j → s'.fresh j := by
      intro j hj
      by_cases hji : j = i
      · subst hji
        obtain ⟨before, hbefore, hholding⟩ := hj
        obtain rfl := Option.some_inj.mp (hcell.symm.trans hbefore)
        have hunused := hstep.unused
        rw [if_neg hsettles, hholding, Nat.zero_add] at hunused
        refine ⟨pair', ?_, Completion.ProducerPc.unused_eq_one.mp hunused⟩
        rw [hcells]
        exact Function.update_self ..
      · exact hkeep hj hji
    refine ⟨hperm.nodup_iff.mp h.nodup, fun j hj => ?_, fun j hj => ?_⟩
    · rw [hheld']
      obtain ⟨hfree, hj⟩ := h.inside j (hperm.mem_iff.mpr hj)
      exact ⟨hfree, hfresh hj⟩
    · rw [hheld'] at hj
      exact hfresh (h.held j hj)

theorem Step.owned (h : Step willWake s l s') (hinv : Inv s) : Owned s' := by
  have howned := hinv.owned
  have hrouted := h.routed hinv
  have hhandled : l.sent .control ++ l.sent .work = [] →
      s.routed.Perm (l.handled.filterMap Command.completer ++ s'.routed) := by
    intro hnone
    rwa [hnone, List.filterMap_nil, List.append_nil] at hrouted
  cases h with
  | @create i hnone =>
    have hother : ∀ {j}, s.fresh j → j ≠ i := by
      rintro j ⟨pair, hcell, -⟩ rfl
      rw [hnone] at hcell
      cases hcell
    refine ⟨(hhandled rfl).nodup_iff.mp howned.nodup, fun j hj => ?_, fun j hj => ?_⟩
    · obtain ⟨hfree, hfresh⟩ := howned.inside j ((hhandled rfl).mem_iff.mpr hj)
      exact ⟨(Function.update_of_ne (hother hfresh) ..).trans hfree,
        State.fresh_setCell hfresh (hother hfresh)⟩
    · by_cases hji : j = i
      · subst hji
        exact ⟨_, Function.update_self .., rfl⟩
      · have hfresh := howned.held j ((Function.update_of_ne hji ..).symm.trans hj)
        exact State.fresh_setCell hfresh hji
  | @send lane command mailbox result woken _ howns =>
    cases result with
    | error => exact howned.same (hhandled rfl) rfl rfl
    | ok =>
      refine howned.sent howns (fun _ => rfl) rfl ?_
      cases lane <;> cases command <;> exact hrouted
  | cell hcell hstep hheld => exact howned.cell hcell hstep hheld (hhandled rfl) rfl rfl
  | clone | dropSender | drain | settle | close | finish | drop | applyStop | discardStop =>
    exact howned.same (hhandled rfl) rfl rfl
  | applyDigest | discardDigest =>
    exact howned.handle (hhandled rfl) rfl fun j hji => Function.update_of_ne hji ..

theorem Inv.next (h : Inv s) (hstep : Step willWake s l s') : Inv s' :=
  ⟨hstep.kept h.kept, hstep.fits h, hstep.owned h⟩

theorem new_inv (id : ReactorId) : Inv (State.new id : State W) := by
  refine ⟨.initial, rfl, .nil, fun i hi => ?_, nofun⟩
  exact absurd hi List.not_mem_nil

/-! ### Whole runs -/

variable {id : ReactorId} {tr : List (Label V)}

theorem run_inv (h : (system id willWake V).Run tr s) : Inv s := by
  refine h.reachable.invariant ?_ fun hinv hstep => Inv.next hinv hstep
  rintro s rfl
  exact new_inv id

/-- A `Stop` that has been applied ends the turns. -/
theorem run_stops (h : (system id willWake V).Run tr s)
    (hstop : .stop ∈ tr.flatMap Label.applied) :
    s.pc ≠ .idle ∧ ∀ pass, s.pc = .turning pass → pass.stopping = true := by
  refine h.invariant (I := fun tr (s : State W) => .stop ∈ tr.flatMap Label.applied →
    s.pc ≠ .idle ∧ ∀ pass, s.pc = .turning pass → pass.stopping = true)
    (fun _ hnil => absurd hnil List.not_mem_nil) ?_ hstop
  intro tr u l v _ ih hstep hmem
  rw [List.flatMap_append, List.flatMap_singleton, List.mem_append] at hmem
  have hstep : Step willWake u l v := hstep
  cases hstep with
  | create | send | clone | dropSender | cell | discardDigest | discardStop =>
    exact ih (hmem.resolve_right List.not_mem_nil)
  | drain hpc => exact absurd hpc (ih (hmem.resolve_right List.not_mem_nil)).1
  | @applyDigest pass _ _ _ _ _ _ _ hpc =>
    have hbefore := ih (hmem.resolve_right (by simp [Label.applied]))
    refine ⟨nofun, fun pass' hpass => ?_⟩
    cases hpass
    exact hbefore.2 pass hpc
  | applyStop =>
    refine ⟨nofun, fun pass' hpass => ?_⟩
    cases hpass
    rfl
  | @settle pass _ _ hpc =>
    refine ⟨nofun, fun pass' hpass => ?_⟩
    cases hpass
    exact (ih (hmem.resolve_right List.not_mem_nil)).2 pass hpc
  | close _ _ _ hstopping =>
    refine ⟨nofun, fun pass' hpass => ?_⟩
    cases hpass
    exact hstopping
  | @finish pass hpc =>
    have hstopping := (ih (hmem.resolve_right List.not_mem_nil)).2 pass hpc
    have hnext : pass.finish.next = .stop := by rw [Pass.finish, hstopping]; rfl
    show (if pass.finish.next = .stop then ShardPc.stopped else .idle) ≠ .idle ∧ _
    rw [if_pos hnext]
    exact ⟨nofun, nofun⟩
  | drop => exact ⟨nofun, nofun⟩

end ChecksumService

end Calandria
