/-
An event batch is a bounded list.

`EventBatch` keeps a running sum of the sizes of its events, and takes from the sum
what it is given back.  The reference `BatchList` is the plain list of the events: it
decides every admission from the sizes of what it holds.

* `EventBatch.exec`, `BatchList.exec` — one call on either;
* `EventBatch.exec_list` — a call on the batch is the call on its list, and the
  subtraction of sizes never fails;
* `drained_split` — a drain that is consumed from both ends hands out a front part and
  a back part, and drops what is between them;
* `event_batch_refines` — over any history, with all that follows from it.
-/
import Calandria.Replay
import Calandria.TransitionSystem

namespace Calandria

/-! ### The batch -/

/-- Current bounded ownership for one event batch. -/
structure EventBatchSnapshot where
  limits : EventBatchLimits
  events : ℕ
  retainedBytes : RetainedBytes
  deriving DecidableEq

/-- The end from which the consumer of a drain takes the next event. -/
inductive DrainEnd
  | front
  | back
  deriving DecidableEq

namespace EventBatch

variable {E : Type}

/-- The panic of `subtract_retained`. -/
inductive Panic
  /-- "event-batch retained-byte accounting invariant violated" -/
  | retainedAccounting
  deriving DecidableEq

def subtractRetained (current removed : RetainedBytes) : Except Panic RetainedBytes :=
  match current.checkedSub removed with
  | some retained => .ok retained
  | none => .error .retainedAccounting

theorem subtractRetained_eq_ok {current removed retained : RetainedBytes} :
    subtractRetained current removed = .ok retained ↔ current.val = removed.val + retained.val := by
  rw [subtractRetained, ← U64.checkedSub_eq_some]
  cases current.checkedSub removed <;> simp

/-- The sum of the recorded sizes. -/
def total (entries : List (Entry E)) : ℕ := (entries.map fun entry => entry.retained.val).sum

theorem total_dropLast {entries : List (Entry E)} {entry : Entry E}
    (h : entries.getLast? = some entry) :
    total entries = total entries.dropLast + entry.retained.val := by
  obtain ⟨before, rfl⟩ := List.getLast?_eq_some_iff.mp h
  rw [List.dropLast_concat, total, List.map_append, List.sum_append]
  rfl

def isEmpty (batch : EventBatch E) : Bool := batch.events.isEmpty

def len (batch : EventBatch E) : ℕ := batch.events.length

/-- The first retained event. -/
def first (batch : EventBatch E) : Option E := batch.events.head?.map Entry.event

/-- Removes the most recently admitted event and restores its accounting. -/
def pop (batch : EventBatch E) : Except Panic (EventBatch E × Option E) :=
  match hlast : batch.events.getLast? with
  | none => .ok (batch, none)
  | some entry =>
    match hsub : subtractRetained batch.retained entry.retained with
    | .error panic => .error panic
    | .ok retained => .ok ({ batch with
        events := batch.events.dropLast
        retained
        count := by
          rw [List.length_dropLast]
          exact (Nat.sub_le ..).trans batch.count
        exact := by
          have hall := batch.exact.symm.trans (subtractRetained_eq_ok.mp hsub)
          have hlast := total_dropLast hlast
          simp only [total] at hlast
          omega }, some entry.event)

theorem count_nil (batch : EventBatch E) :
    ([] : List (Entry E)).length ≤ batch.limits.events.get.val := Nat.zero_le _

theorem total_nil : (0 : RetainedBytes).val = total ([] : List (Entry E)) := rfl

/-- Drops every retained event and restores empty accounting. -/
def clear (batch : EventBatch E) : EventBatch E :=
  { batch with events := [], retained := 0, count := batch.count_nil, exact := total_nil }

end EventBatch

/-- Owned event iterator returned by `drain`. -/
structure EventBatchDrain (E : Type) where
  entries : List (Entry E)

namespace EventBatchDrain

variable {E : Type}

def next (drain : EventBatchDrain E) : EventBatchDrain E × Option E :=
  (⟨drain.entries.tail⟩, drain.entries.head?.map Entry.event)

def nextBack (drain : EventBatchDrain E) : EventBatchDrain E × Option E :=
  (⟨drain.entries.dropLast⟩, drain.entries.getLast?.map Entry.event)

/-- What the consumer is handed at the ends it asks for, and what is dropped with the drain. -/
def consume (drain : EventBatchDrain E) : List DrainEnd → List (Option E) × List E
  | [] => ([], drain.entries.map Entry.event)
  | side :: rest =>
    let (drain, event) := match side with
      | .front => drain.next
      | .back => drain.nextBack
    let (events, dropped) := drain.consume rest
    (event :: events, dropped)

end EventBatchDrain

/-- Transfers every event in insertion order and empties the batch. -/
def EventBatch.drain {E : Type} (batch : EventBatch E) : EventBatch E × EventBatchDrain E :=
  ({ batch with events := [], retained := 0, count := batch.count_nil, exact := total_nil },
    ⟨batch.events⟩)

def EventBatch.snapshot {E : Type} (batch : EventBatch E) : EventBatchSnapshot :=
  ⟨batch.limits, batch.events.length, batch.retained⟩

/-- A call of the owner; a drain is consumed at the listed ends and then dropped. -/
inductive BatchCall (E : Type)
  | tryPush (event : E)
  | pop
  | clear
  | drain (sides : List DrainEnd)

/-- What the owner gets, and the events that are dropped. -/
inductive BatchReply (E : Type)
  | pushed (result : Except (EventBatchError E) Unit)
  | popped (event : Option E)
  | cleared (dropped : List E)
  | drained (events : List (Option E)) (dropped : List E)

namespace EventBatch

variable {E : Type}

def exec (batch : EventBatch E) : BatchCall E → Except Panic (EventBatch E × BatchReply E)
  | .tryPush event =>
    match batch.tryPush event with
    | .ok batch => .ok (batch, .pushed (.ok ()))
    | .error error => .ok (batch, .pushed (.error error))
  | .pop => do
    let (batch, event) ← batch.pop
    .ok (batch, .popped event)
  | .clear => .ok (batch.clear, .cleared batch.iter)
  | .drain sides =>
    let (batch, drain) := batch.drain
    let (events, dropped) := drain.consume sides
    .ok (batch, .drained events dropped)

/-- A batch under an arbitrary sequence of calls. -/
def system (limits : EventBatchLimits) (measure : E → RetainedBytes) :
    TransitionSystem (EventBatch E) (BatchCall E × BatchReply E) where
  init batch := batch = withMeasure limits measure
  step batch l batch' := batch.exec l.1 = .ok (batch', l.2)

end EventBatch

/-! ### The reference -/

/-- A list of events, and what bounds it. -/
@[ext] structure BatchList (E : Type) where
  limits : EventBatchLimits
  measure : E → RetainedBytes
  events : List E

namespace BatchList

variable {E : Type} (list : BatchList E)

/-- The sizes of the events together. -/
def bytes : ℕ := (list.events.map fun event => (list.measure event).val).sum

/-- Why there is no room for an event. -/
def refusal? (event : E) : Option EventBatchFailure :=
  if list.limits.events.get.val ≤ list.events.length then
    some (.eventCapacity list.limits.events)
  else if 2 ^ 64 ≤ list.bytes + (list.measure event).val then
    some (.retainedByteOverflow (Fin.ofNat _ list.bytes) (list.measure event))
  else if list.limits.retainedBytes.val < list.bytes + (list.measure event).val then
    some (.retainedByteCapacity list.limits.retainedBytes (Fin.ofNat _ list.bytes)
      (list.measure event))
  else none

/-- What is taken from a list at the ends asked for, and what is left of it. -/
def take (events : List E) : List DrainEnd → List (Option E) × List E
  | [] => ([], events)
  | .front :: rest => ((events.head? :: (take events.tail rest).1), (take events.tail rest).2)
  | .back :: rest =>
    ((events.getLast? :: (take events.dropLast rest).1), (take events.dropLast rest).2)

/-- One call on the reference. -/
def exec : BatchCall E → BatchList E × BatchReply E
  | .tryPush event =>
    match list.refusal? event with
    | some failure => (list, .pushed (.error ⟨event, failure⟩))
    | none => ({ list with events := list.events ++ [event] }, .pushed (.ok ()))
  | .pop => ({ list with events := list.events.dropLast }, .popped list.events.getLast?)
  | .clear => ({ list with events := [] }, .cleared list.events)
  | .drain sides =>
    ({ list with events := [] }, .drained (take list.events sides).1 (take list.events sides).2)

/-- The reference under an arbitrary sequence of calls. -/
def system (limits : EventBatchLimits) (measure : E → RetainedBytes) :
    TransitionSystem (BatchList E) (BatchCall E × BatchReply E) where
  init list := list = ⟨limits, measure, []⟩
  step list l list' := list.exec l.1 = (list', l.2)

end BatchList

/-! ### One call -/

namespace EventBatch

variable {E : Type} {batch : EventBatch E}

/-- The events of a batch, without their accounting. -/
def list (batch : EventBatch E) : BatchList E := ⟨batch.limits, batch.measure, batch.iter⟩

/-- The recorded sizes are the sizes of the events, and within the limit. -/
structure Measured (batch : EventBatch E) : Prop where
  sizes : ∀ entry ∈ batch.events, entry.retained = batch.measure entry.event
  bytes : batch.retained ≤ batch.limits.retainedBytes

theorem Measured.bytes_list (h : Measured batch) : batch.list.bytes = batch.retained.val := by
  rw [batch.exact, BatchList.bytes]
  show ((batch.events.map Entry.event).map _).sum = _
  rw [List.map_map]
  congr 1
  refine List.map_congr_left fun entry hentry => ?_
  rw [h.sizes entry hentry]
  rfl

theorem Measured.ofNat_bytes (h : Measured batch) :
    Fin.ofNat (2 ^ 64) batch.list.bytes = batch.retained := by
  rw [h.bytes_list]
  exact Fin.ofNat_val_eq_self ..

theorem length_iter (batch : EventBatch E) : batch.iter.length = batch.events.length :=
  List.length_map ..

theorem Measured.refusal? (h : Measured batch) (event : E) : batch.list.refusal? event =
    if batch.limits.events.get.val ≤ batch.events.length then
      some (.eventCapacity batch.limits.events)
    else if 2 ^ 64 ≤ batch.retained.val + (batch.measure event).val then
      some (.retainedByteOverflow batch.retained (batch.measure event))
    else if batch.limits.retainedBytes.val < batch.retained.val + (batch.measure event).val then
      some (.retainedByteCapacity batch.limits.retainedBytes batch.retained (batch.measure event))
    else none := by
  rw [BatchList.refusal?, h.ofNat_bytes, h.bytes_list, ← length_iter]
  rfl

/-- An admission is decided by the sizes of the events. -/
theorem Measured.tryPush (h : Measured batch) (event : E) :
    (∃ failure, batch.list.refusal? event = some failure ∧
      batch.tryPush event = .error ⟨event, failure⟩) ∨
    ∃ batch', batch.list.refusal? event = none ∧ batch.tryPush event = .ok batch' ∧
      Measured batch' ∧
      batch'.list = { batch.list with events := batch.list.events ++ [event] } := by
  obtain ⟨result, htry⟩ : ∃ result, batch.tryPush event = result := ⟨_, rfl⟩
  rw [htry, h.refusal?]
  rw [EventBatch.tryPush] at htry
  split at htry
  · rename_i hcount
    rw [if_pos hcount]
    exact .inl ⟨_, rfl, htry.symm⟩
  · rename_i hcount
    rw [if_neg hcount]
    simp only at htry
    split at htry
    · rename_i hnone
      rw [if_pos (U64.checkedAdd_eq_none.mp hnone)]
      exact .inl ⟨_, rfl, htry.symm⟩
    · rename_i next hnext
      have hsum := U64.checkedAdd_eq_some.mp hnext
      have hlt := next.isLt
      rw [if_neg (by omega), ← hsum]
      split at htry
      · rename_i hbytes
        rw [if_pos (show batch.limits.retainedBytes.val < next.val from hbytes)]
        exact .inl ⟨_, rfl, htry.symm⟩
      · rename_i hbytes
        rw [if_neg (show ¬ batch.limits.retainedBytes.val < next.val from hbytes)]
        refine .inr ⟨_, rfl, htry.symm, ⟨fun entry hentry => ?_, not_lt.mp hbytes⟩,
          by simp [list, iter]⟩
        rcases List.mem_append.mp hentry with hentry | hentry
        · exact h.sizes entry hentry
        · rw [List.mem_singleton.mp hentry]

/-- The subtraction of a size that is part of the sum does not fail. -/
theorem Measured.pop (h : Measured batch) :
    ∃ batch', batch.pop = .ok (batch', batch.iter.getLast?) ∧ Measured batch' ∧
      batch'.list = { batch.list with events := batch.iter.dropLast } := by
  obtain ⟨result, hpop⟩ : ∃ result, batch.pop = result := ⟨_, rfl⟩
  rw [hpop, iter, List.getLast?_map]
  rw [EventBatch.pop] at hpop
  split at hpop
  · rename_i hnone
    have hnil := List.getLast?_eq_none_iff.mp hnone
    rw [hnone]
    exact ⟨batch, hpop.symm, h, by simp [list, iter, hnil]⟩
  · rename_i entry hlast
    have hsum := total_dropLast hlast
    have hexact : batch.retained.val = total batch.events := batch.exact
    split at hpop
    · rename_i hpanic
      rw [subtractRetained] at hpanic
      obtain ⟨rest, hrest, -⟩ := U64.exists_checkedSub (a := batch.retained) (b := entry.retained)
        (by omega)
      simp [hrest] at hpanic
    · rename_i rest hrest
      have hless := subtractRetained_eq_ok.mp hrest
      rw [hlast]
      refine ⟨_, hpop.symm, ⟨fun entry hentry => ?_, ?_⟩, by simp [list, iter, List.map_dropLast]⟩
      · exact h.sizes entry (List.mem_of_mem_dropLast hentry)
      · have hbytes := Fin.le_def.mp h.bytes
        exact Fin.le_def.mpr (by simp only; omega)

theorem consume_list (drain : EventBatchDrain E) (sides : List DrainEnd) :
    drain.consume sides = BatchList.take (drain.entries.map Entry.event) sides := by
  induction sides generalizing drain with
  | nil => rfl
  | cons side rest ih =>
    cases side with
    | front =>
      simp only [EventBatchDrain.consume, EventBatchDrain.next, ih, BatchList.take, List.map_tail,
        List.head?_map]
    | back =>
      simp only [EventBatchDrain.consume, EventBatchDrain.nextBack, ih, BatchList.take,
        List.map_dropLast, List.getLast?_map]

/-- **The step lemma**: a call on a batch is the call on its list. -/
theorem Measured.exec (h : Measured batch) (call : BatchCall E) :
    ∃ batch' reply, batch.exec call = .ok (batch', reply) ∧ Measured batch' ∧
      batch.list.exec call = (batch'.list, reply) := by
  have hempty : Measured batch.clear := by
    refine ⟨?_, Fin.zero_le _⟩
    rintro entry hentry
    cases hentry
  cases call with
  | tryPush event =>
    rcases h.tryPush event with ⟨failure, hrefusal, hpush⟩ | ⟨batch', hrefusal, hpush, h', hlist⟩
    · exact ⟨batch, _, by rw [EventBatch.exec, hpush], h, by rw [BatchList.exec, hrefusal]⟩
    · exact ⟨batch', _, by rw [EventBatch.exec, hpush], h', by rw [BatchList.exec, hrefusal, hlist]⟩
  | pop =>
    obtain ⟨batch', hpop, h', hlist⟩ := h.pop
    refine ⟨batch', .popped batch.iter.getLast?, ?_, h', ?_⟩
    · rw [EventBatch.exec, hpop]
      rfl
    · rw [BatchList.exec, hlist]
      rfl
  | clear => exact ⟨batch.clear, _, rfl, hempty, rfl⟩
  | drain sides =>
    refine ⟨batch.clear, .drained (BatchList.take batch.iter sides).1
      (BatchList.take batch.iter sides).2, ?_, hempty, rfl⟩
    have hconsume : (⟨batch.events⟩ : EventBatchDrain E).consume sides
        = BatchList.take batch.iter sides := consume_list _ sides
    rw [EventBatch.exec, EventBatch.drain]
    simp only [hconsume]
    rfl

end EventBatch

/-! ### Drains -/

theorem head_tail {E : Type} (events : List E) : events = events.head?.toList ++ events.tail := by
  cases events <;> rfl

theorem dropLast_getLast {E : Type} (events : List E) :
    events = events.dropLast ++ events.getLast?.toList := by
  cases hlast : events.getLast? with
  | none => simp [List.getLast?_eq_none_iff.mp hlast]
  | some event =>
    obtain ⟨before, rfl⟩ := List.getLast?_eq_some_iff.mp hlast
    simp

/-- What a drain hands out at one end. -/
def drainedAt {E : Type} (side : DrainEnd) (sides : List DrainEnd) (events : List (Option E)) :
    List E :=
  (sides.zip events).filterMap fun p => if p.1 = side then p.2 else none

theorem drainedAt_cons {E : Type} (side side' : DrainEnd) (sides : List DrainEnd) (event : Option E)
    (events : List (Option E)) : drainedAt side (side' :: sides) (event :: events)
      = (if side' = side then event.toList else []) ++ drainedAt side sides events := by
  rw [drainedAt, List.zip_cons_cons, List.filterMap_cons]
  by_cases h : side' = side
  · cases event <;> simp [h, drainedAt]
  · simp [h, drainedAt]

/-- **A drain consumed from both ends** hands out a front part and a back part, and drops what
is between them. -/
theorem drained_split {E : Type} (events : List E) (sides : List DrainEnd) :
    events = drainedAt .front sides (BatchList.take events sides).1
      ++ (BatchList.take events sides).2
      ++ (drainedAt .back sides (BatchList.take events sides).1).reverse := by
  induction sides generalizing events with
  | nil => simp [BatchList.take, drainedAt]
  | cons side rest ih =>
    cases side with
    | front =>
      have hfront := head_tail events
      have hih := ih events.tail
      simp only [BatchList.take, drainedAt_cons, if_true, reduceCtorEq, if_false, List.nil_append]
      rw [List.append_assoc, List.append_assoc, ← List.append_assoc (drainedAt _ _ _), ← hih,
        ← hfront]
    | back =>
      have hback := dropLast_getLast events
      have hih := ih events.dropLast
      have hrev : ∀ event : Option E, event.toList.reverse = event.toList := by
        intro event
        cases event <;> rfl
      simp only [BatchList.take, drainedAt_cons, if_true, reduceCtorEq, if_false, List.nil_append,
        List.reverse_append, hrev]
      rw [← List.append_assoc, ← hih, ← hback]

/-! ### Runs -/

section

variable {E : Type}

/-- The reply to an admission. -/
def BatchReply.accepts : BatchReply E → Bool
  | .pushed (.ok _) => true
  | .pushed (.error _) | .popped _ | .cleared _ | .drained .. => false

/-- The events that a call admits. -/
def BatchCall.admits (l : BatchCall E × BatchReply E) : List E :=
  match l.1 with
  | .tryPush event => if l.2.accepts then [event] else []
  | .pop | .clear | .drain _ => []

/-- The events that leave with a reply. -/
def BatchReply.releases : BatchReply E → List E
  | .pushed _ => []
  | .popped event => event.toList
  | .cleared dropped => dropped
  | .drained events dropped => events.flatMap Option.toList ++ dropped

theorem BatchList.take_perm (events : List E) (sides : List DrainEnd) :
    events.Perm ((take events sides).1.flatMap Option.toList ++ (take events sides).2) := by
  induction sides generalizing events with
  | nil => exact .refl _
  | cons side rest ih =>
    cases side with
    | front =>
      have hstep := (ih events.tail).append_left events.head?.toList
      rw [← head_tail, ← List.append_assoc] at hstep
      exact hstep
    | back =>
      have hstep := (ih events.dropLast).append_left events.getLast?.toList
      rw [← List.append_assoc] at hstep
      have hswap : events.Perm (events.getLast?.toList ++ events.dropLast) := by
        refine (List.Perm.of_eq (dropLast_getLast events)).trans List.perm_append_comm
      exact hswap.trans hstep

theorem BatchList.exec_limits (list : BatchList E) (call : BatchCall E) :
    (list.exec call).1.limits = list.limits ∧ (list.exec call).1.measure = list.measure := by
  cases call with
  | tryPush event =>
    rw [exec]
    cases list.refusal? event <;> exact ⟨rfl, rfl⟩
  | pop | clear | drain => exact ⟨rfl, rfl⟩

/-- What a call admits is what leaves with its reply, or is kept. -/
theorem BatchList.conserves (list : BatchList E) (call : BatchCall E) :
    (list.events ++ BatchCall.admits (call, (list.exec call).2)).Perm
      ((list.exec call).2.releases ++ (list.exec call).1.events) := by
  cases call with
  | tryPush event =>
    rw [exec]
    cases list.refusal? event with
    | some failure => simp [BatchCall.admits, BatchReply.accepts, BatchReply.releases]
    | none => exact .refl _
  | pop =>
    show (list.events ++ []).Perm _
    rw [List.append_nil]
    exact (List.Perm.of_eq (dropLast_getLast list.events)).trans List.perm_append_comm
  | clear => exact .refl _
  | drain sides =>
    show (list.events ++ []).Perm _
    rw [List.append_nil]
    exact (take_perm list.events sides).trans (.of_eq (List.append_nil _).symm)

/-- **An event batch is a bounded list of its events.**  Over every history of calls each reply
is the reply of the plain list, no call panics, the counts and sizes are those of the events
held and within the limits, and every event that was admitted has been handed out or dropped
once, or is held.  A drain hands out a front part and a back part, in order, and drops what is
between them. -/
theorem event_batch_refines {limits : EventBatchLimits} {measure : E → RetainedBytes}
    {tr : List (BatchCall E × BatchReply E)} {batch : EventBatch E}
    (h : (EventBatch.system limits measure).Run tr batch) :
    (BatchList.system limits measure).Run tr ⟨limits, measure, batch.iter⟩ ∧
    (∀ call, ∃ batch' reply, batch.exec call = .ok (batch', reply)) ∧
    (batch.len = batch.iter.length ∧ batch.isEmpty = batch.iter.isEmpty ∧
      batch.first = batch.iter.head?) ∧
    (batch.snapshot.limits = limits ∧ batch.snapshot.events = batch.iter.length ∧
      batch.snapshot.retainedBytes.val = (batch.iter.map fun event => (measure event).val).sum ∧
      batch.iter.length ≤ limits.events.get.val ∧
      batch.snapshot.retainedBytes ≤ limits.retainedBytes) ∧
    (tr.flatMap BatchCall.admits).Perm (tr.flatMap (fun l => l.2.releases) ++ batch.iter) ∧
    ∀ sides, ∃ batch' events dropped,
      batch.exec (.drain sides) = .ok (batch', .drained events dropped) ∧ batch'.iter = [] ∧
      batch.iter
        = drainedAt .front sides events ++ dropped ++ (drainedAt .back sides events).reverse := by
  -- the batch and its list go through the run side by side
  have hboth : batch.Measured ∧ batch.list = ⟨limits, measure, batch.iter⟩ ∧
      (BatchList.system limits measure).Run tr batch.list ∧
      (tr.flatMap BatchCall.admits).Perm (tr.flatMap (fun l => l.2.releases) ++ batch.iter) := by
    refine h.invariant (I := fun tr batch => batch.Measured ∧
      batch.list = ⟨limits, measure, batch.iter⟩ ∧
      (BatchList.system limits measure).Run tr batch.list ∧
      (tr.flatMap BatchCall.admits).Perm (tr.flatMap (fun l => l.2.releases) ++ batch.iter)) ?_ ?_
    · rintro batch rfl
      refine ⟨⟨?_, Fin.zero_le _⟩, rfl, .start rfl, .refl _⟩
      rintro entry hentry
      cases hentry
    · rintro tr batch ⟨call, reply⟩ batch' - ⟨hmeasured, hlist, hrun, hperm⟩ hexec
      obtain ⟨batch₁, reply₁, hexec₁, hmeasured', hstep⟩ := hmeasured.exec call
      obtain ⟨rfl, rfl⟩ := Prod.mk.inj (Except.ok.inj (hexec₁.symm.trans hexec))
      have hkeeps : batch₁.list = ⟨limits, measure, batch₁.iter⟩ := by
        have hlimits := BatchList.exec_limits batch.list call
        rw [hstep, hlist] at hlimits
        exact BatchList.ext hlimits.1 hlimits.2 rfl
      refine ⟨hmeasured', hkeeps, hrun.next (l := (call, reply₁)) hstep, ?_⟩
      have hcall := batch.list.conserves call
      rw [hstep] at hcall
      rw [List.flatMap_append, List.flatMap_append, List.flatMap_singleton, List.flatMap_singleton]
      refine (hperm.append_right _).trans ?_
      rw [List.append_assoc, List.append_assoc]
      exact hcall.append_left _
  obtain ⟨hmeasured, hlist, hrun, hperm⟩ := hboth
  have hlimits : batch.limits = limits := congrArg BatchList.limits hlist
  have hmeasure : batch.measure = measure := congrArg BatchList.measure hlist
  have hbytes := hmeasured.bytes_list
  refine ⟨hlist ▸ hrun, fun call => ?_, ⟨batch.length_iter.symm, ?_, ?_⟩,
    ⟨hlimits, batch.length_iter.symm, ?_, ?_, ?_⟩, hperm, fun sides => ?_⟩
  · obtain ⟨batch', reply, hexec, -⟩ := hmeasured.exec call
    exact ⟨batch', reply, hexec⟩
  · rw [EventBatch.isEmpty, EventBatch.iter, List.isEmpty_map]
  · rw [EventBatch.first, EventBatch.iter, List.head?_map]
  · rw [← hmeasure]
    exact hbytes.symm
  · rw [batch.length_iter, ← hlimits]
    exact batch.count
  · rw [← hlimits]
    exact hmeasured.bytes
  · obtain ⟨batch', reply, hexec, -, hstep⟩ := hmeasured.exec (.drain sides)
    obtain ⟨hempty, hreply⟩ := Prod.mk.inj hstep
    refine ⟨batch', _, _, hreply ▸ hexec, (congrArg BatchList.events hempty).symm, ?_⟩
    exact drained_split batch.iter sides

/-- A run goes on with a call. -/
theorem EventBatch.run_exec {limits : EventBatchLimits} {measure : E → RetainedBytes}
    {tr : List (BatchCall E × BatchReply E)} {batch batch' : EventBatch E} {reply : BatchReply E}
    (h : (EventBatch.system limits measure).Run tr batch) (call : BatchCall E)
    (hexec : batch.exec call = .ok (batch', reply)) :
    (EventBatch.system limits measure).Run (tr ++ [(call, reply)]) batch' :=
  h.next hexec

/-- Two events, consumed one from each end. -/
theorem event_batch_refines_drained :
    let limits : EventBatchLimits := ⟨⟨4, by decide⟩, 64⟩
    let tr : List (BatchCall ℕ × BatchReply ℕ) := [
      (.tryPush 1, .pushed (.ok ())), (.tryPush 2, .pushed (.ok ())),
      (.tryPush 3, .pushed (.ok ())), (.pop, .popped (some 3)),
      (.drain [.back, .front, .front], .drained [some 2, some 1, none] [])]
    (BatchList.system limits fun _ => 8).Run tr ⟨limits, fun _ => 8, []⟩ := by
  intro limits tr
  have hstart := TransitionSystem.Run.start (T := EventBatch.system limits fun _ : ℕ => 8) rfl
  have hone := EventBatch.run_exec hstart (.tryPush 1) rfl
  have htwo := EventBatch.run_exec hone (.tryPush 2) rfl
  have hthree := EventBatch.run_exec htwo (.tryPush 3) rfl
  have hpopped := EventBatch.run_exec hthree .pop rfl
  exact (event_batch_refines
    (EventBatch.run_exec hpopped (.drain [.back, .front, .front]) rfl)).1

end

end Calandria
