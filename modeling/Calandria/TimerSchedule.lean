/-
A timer queue is a sorted list of timers.

The reference `TimerList` is an agenda: timers in order of deadline and admission,
numbered from the first identity.  It has no heap and no counters of its own.

* `TimerList.exec` — one call on the reference;
* `TimerList.queue` — the queue with its counters, over a heap of its timers;
* `exec_queue` — each call on that queue is the same call on the reference;
* `refines_timer_list` — so is every history, with all that follows from it.
-/
import Calandria.Agenda
import Calandria.TimerQueue
import Calandria.TransitionSystem

namespace Calandria

namespace TimerQueue

variable {T : Type} {P : PriorityQueue (Scheduled T) Scheduled.cmp}

/-- A queue under an arbitrary sequence of calls. -/
def system (P : PriorityQueue (Scheduled T) Scheduled.cmp) (owner : TimerOwnerId)
    (limits : TimerLimits) (firstId : TimerId) (measure : T → RetainedBytes) :
    TransitionSystem (TimerQueue P) (Op T × Reply T) where
  init queue := queue = startingAtWithMeasure P owner limits firstId measure
  step queue l queue' := queue.exec l.1 = .ok (queue', l.2)

/-! ### The reference -/

def bounds (limits : TimerLimits) : Agenda.Bounds :=
  ⟨limits.timers.get.val, limits.retainedBytes.val⟩

/-- The size of a pending timer. -/
def bytes (timer : Timer T) : ℕ := timer.retained.val

/-- The pending timers in order of firing. -/
structure TimerList (T : Type) where
  owner : TimerOwnerId
  limits : TimerLimits
  measure : T → RetainedBytes
  agenda : Agenda (2 ^ 64) Deadline (Timer T)
  within : agenda.Within (bounds limits) bytes
  named : ∀ {k v}, agenda.pending.get? k = some v → v.token = ⟨owner, (ofLex k).2, (ofLex k).1⟩
  measured : ∀ {k v}, agenda.pending.get? k = some v → v.retained = measure v.value

namespace TimerList

variable (ref : TimerList T)

/-- The sum of the admission-time measurements. -/
def retained : RetainedBytes :=
  ⟨ref.agenda.pending.total bytes, lt_of_le_of_lt ref.within.size ref.limits.retainedBytes.isLt⟩

def start (owner : TimerOwnerId) (limits : TimerLimits) (firstId : TimerId)
    (measure : T → RetainedBytes) : TimerList T :=
  ⟨owner, limits, measure, .startingAt firstId.val, .startingAt firstId.val, nofun, nofun⟩

def failure (value : T) : Agenda.Refusal → TimerScheduleFailure
  | .count => .timerCapacity ref.limits.timers
  | .sizeOverflow => .retainedByteOverflow ref.retained (ref.measure value)
  | .size => .retainedByteCapacity ref.limits.retainedBytes ref.retained (ref.measure value)
  | .numbers => .timerIdsExhausted

/-- Why the list has no room for a value. -/
def refusal? (value : T) : Option Agenda.Refusal :=
  ref.agenda.refusal? (bounds ref.limits) bytes (ref.measure value).val

variable {ref} in
/-- The timer that a value becomes. -/
def timer {value : T} (deadline : Deadline) (h : ref.refusal? value = none) : Timer T :=
  ⟨⟨ref.owner, ⟨ref.agenda.next, Agenda.next_lt h⟩, deadline⟩, value, ref.measure value⟩

/-- Enters a timer behind those of its deadline. -/
def enter {value : T} (deadline : Deadline) (h : ref.refusal? value = none) : TimerList T :=
  { ref with
    agenda := ref.agenda.admitItem deadline (timer deadline h) (Agenda.next_lt h)
    within := .admitItem (show ref.agenda.refusal? (bounds ref.limits) bytes
      (bytes (timer deadline h)) = none from h) (Agenda.next_lt h)
    named := fun {k v} hk => by
      change (ref.agenda.pending.insert _ _).get? k = some v at hk
      rw [OrderedMap.get?_insert] at hk
      split_ifs at hk with heq
      · obtain rfl := Option.some_inj.mp hk
        rw [heq]
        rfl
      · exact ref.named hk
    measured := fun {k v} hk => by
      change (ref.agenda.pending.insert _ _).get? k = some v at hk
      rw [OrderedMap.get?_insert] at hk
      split_ifs at hk
      · obtain rfl := Option.some_inj.mp hk
        rfl
      · exact ref.measured hk }

def leave (k : Deadline ×ₗ TimerId) : TimerList T :=
  { ref with
    agenda := ref.agenda.remove k
    within := ref.within.remove k
    named := fun h => ref.named (ref.agenda.get?_of_erase h).2
    measured := fun h => ref.measured (ref.agenda.get?_of_erase h).2 }

def schedule (deadline : Deadline) (value : T) :
    TimerList T × Except (TimerScheduleError T) TimerToken :=
  match h : ref.refusal? value with
  | some refusal => (ref, .error ⟨deadline, value, ref.failure value refusal⟩)
  | none => (ref.enter deadline h, .ok (timer deadline h).token)

def cancel (token : TimerToken) : TimerList T × Option (Timer T) :=
  if token.owner = ref.owner then
    match ref.agenda.pending.get? token.key with
    | some timer => (ref.leave token.key, some timer)
    | none => (ref, none)
  else (ref, none)

def nextDeadline : Option Deadline := ref.agenda.pending.first?.map fun e => (ofLex e.1).1

/-- Takes the first timer if its deadline has come. -/
def popDue (now : Moment) : TimerList T × Option (Timer T) :=
  match ref.agenda.pending.first? with
  | some e => if (ofLex e.1).1 ≤ now then (ref.leave e.1, some e.2) else (ref, none)
  | none => (ref, none)

/-- Takes the timers whose deadline has come, at most `budget` of them. -/
def drain (now : Moment) : ℕ → TimerList T → TimerList T × List (Timer T)
  | 0, ref => (ref, [])
  | budget + 1, ref =>
    match ref.popDue now with
    | (ref, none) => (ref, [])
    | (ref, some timer) =>
      let (ref, timers) := drain now budget ref
      (ref, timer :: timers)

def snapshot : TimerQueueSnapshot :=
  ⟨ref.owner, ref.limits, ref.agenda.pending.size, ref.retained, ref.nextDeadline,
    ref.agenda.number?⟩

/-- One call on the reference. -/
def exec : Op T → TimerList T × Reply T
  | .schedule deadline value =>
    let (ref, result) := ref.schedule deadline value
    (ref, .admission result)
  | .cancel token =>
    let (ref, result) := ref.cancel token
    (ref, .cancelled result)
  | .popDue now =>
    let (ref, result) := ref.popDue now
    (ref, .due result)
  | .drainDueInto now destination budget =>
    let (ref, timers) := drain now budget.get.val ref
    (ref, .drained (destination ++ timers)
      ⟨timers.length, ref.nextDeadline.any fun deadline => deadline ≤ now⟩)
  | .nextDeadline => (ref, .deadline ref.nextDeadline)
  | .iter => (ref, .timers ref.agenda.pending.values)
  | .snapshot => (ref, .counts ref.snapshot)

/-! ### The queue of a reference -/

/-- The queue that keeps count of what the reference implies. -/
def queue (heap : P.Heap) : TimerQueue P where
  owner := ref.owner
  limits := ref.limits
  measure := ref.measure
  timers := heap
  nextId := ref.agenda.number?
  retained := ref.retained

/-- The heap holds the timers of the reference, in whatever order. -/
def Holds (P : PriorityQueue (Scheduled T) Scheduled.cmp) (heap : P.Heap) : Prop :=
  (P.intoVec heap).Perm (ref.agenda.pending.values.map Scheduled.mk)

variable {ref} {heap : P.Heap}

theorem key_of_get? {k : Deadline ×ₗ TimerId} {timer : Timer T}
    (h : ref.agenda.pending.get? k = some timer) : timer.token.key = k := by
  rw [ref.named h]
  rfl

theorem mem_heap (h : ref.Holds P heap) {scheduled : Scheduled T} :
    scheduled ∈ P.intoVec heap ↔
      ref.agenda.pending.get? scheduled.timer.token.key = some scheduled.timer := by
  rw [h.mem_iff, List.mem_map]
  constructor
  · rintro ⟨timer, htimer, rfl⟩
    obtain ⟨k, hk⟩ := OrderedMap.mem_values.mp htimer
    rw [key_of_get? hk]
    exact hk
  · intro hget
    exact ⟨_, OrderedMap.mem_values.mpr ⟨_, hget⟩, rfl⟩

/-- The greatest of the heap is the first of the list. -/
theorem peek_eq (h : ref.Holds P heap) :
    P.peek heap = ref.agenda.pending.first?.map fun e => ⟨e.2⟩ := by
  cases hpeek : P.peek heap with
  | none =>
    rw [Holds, P.peek_eq_none.mp hpeek] at h
    have hnil := h.nil_eq.symm
    have hentries : ref.agenda.pending.entries = [] := by
      simpa [OrderedMap.values] using hnil
    rw [OrderedMap.first?, hentries]
    rfl
  | some scheduled =>
    have hget := (mem_heap h).mp (P.peek_mem hpeek)
    cases hfirst : ref.agenda.pending.first? with
    | none =>
      rw [OrderedMap.first?_eq_none.mp hfirst] at hget
      cases hget
    | some e =>
      have hfirst_get := OrderedMap.get?_first? hfirst
      have hkey := key_of_get? hfirst_get
      -- each is at or before the other
      have hle := OrderedMap.first?_le hfirst hget
      have hge := Scheduled.cmp_isLE.mp (P.peek_greatest hpeek (y := ⟨e.2⟩)
        ((mem_heap h).mpr (by rw [hkey]; exact hfirst_get)))
      rw [hkey] at hge
      rw [le_antisymm hge hle, hfirst_get] at hget
      rw [Option.map_some, Option.some_inj.mp hget]

theorem nextDeadline_queue (h : ref.Holds P heap) :
    (ref.queue heap).nextDeadline = ref.nextDeadline := by
  rw [TimerQueue.nextDeadline, nextDeadline]
  show (P.peek heap).map _ = _
  rw [peek_eq h]
  cases hfirst : ref.agenda.pending.first? with
  | none => rfl
  | some e =>
    show some e.2.token.deadline = _
    rw [ref.named (OrderedMap.get?_first? hfirst)]
    rfl

theorem len_queue (h : ref.Holds P heap) : (ref.queue heap).len = ref.agenda.pending.size := by
  rw [len]
  show (P.intoVec heap).length = _
  rw [h.length_eq, List.length_map, OrderedMap.values, List.length_map, OrderedMap.size]

theorem iter_perm (h : ref.Holds P heap) :
    (ref.queue heap).iter.Perm ref.agenda.pending.values := by
  have hperm := h.map Scheduled.timer
  rwa [List.map_map, show Scheduled.timer ∘ Scheduled.mk = (id : Timer T → Timer T) from rfl,
    List.map_id] at hperm

theorem schedule_refused {deadline : Deadline} {value : T} {refusal : Agenda.Refusal}
    (h : ref.refusal? value = some refusal) :
    ref.schedule deadline value = (ref, .error ⟨deadline, value, ref.failure value refusal⟩) := by
  rw [schedule]
  split
  · next refusal' h' =>
    cases h.symm.trans h'
    rfl
  · next h' => cases h.symm.trans h'

theorem schedule_entered (deadline : Deadline) {value : T} (h : ref.refusal? value = none) :
    ref.schedule deadline value = (ref.enter deadline h, .ok (timer deadline h).token) := by
  rw [schedule]
  split
  · next refusal h' => cases h.symm.trans h'
  · rfl

theorem enter_queue (deadline : Deadline) {value : T} (h : ref.refusal? value = none)
    {total : RetainedBytes} (htotal : total.val = ref.retained.val + (ref.measure value).val)
    (heap : P.Heap) :
    (ref.enter deadline h).queue heap = { ref.queue heap with
      nextId := TimerId.checkedNext ⟨ref.agenda.next, Agenda.next_lt h⟩
      retained := total } := by
  have hretained : (ref.enter deadline h).retained = total := by
    refine Fin.ext ?_
    rw [htotal, Nat.add_comm]
    exact OrderedMap.total_insert bytes (Agenda.vacant deadline (Agenda.next_lt h))
  rw [queue, hretained]
  rfl

theorem enter_holds (h : ref.Holds P heap) (deadline : Deadline) {value : T}
    (hroom : ref.refusal? value = none) :
    (ref.enter deadline hroom).Holds P (P.push heap ⟨timer deadline hroom⟩) := by
  have hperm := OrderedMap.insert_perm (v := timer deadline hroom)
    (Agenda.vacant deadline (Agenda.next_lt hroom))
  refine (P.push_vec heap _).trans ((h.cons _).trans ?_)
  exact ((hperm.map Prod.snd).map Scheduled.mk).symm

/-- One timer leaves the list and, whatever is done to it, the heap. -/
theorem leave_holds (h : ref.Holds P heap) {k : Deadline ×ₗ TimerId} {timer : Timer T}
    (hk : ref.agenda.pending.get? k = some timer) {heap' : P.Heap}
    (hheap : (P.intoVec heap).Perm (⟨timer⟩ :: P.intoVec heap')) :
    (ref.leave k).Holds P heap' := by
  have hperm := ((OrderedMap.erase_perm hk).map Prod.snd).map Scheduled.mk
  exact (hheap.symm.trans (h.trans hperm)).cons_inv

theorem subtractRetained_queue {k : Deadline ×ₗ TimerId} {timer : Timer T}
    (hk : ref.agenda.pending.get? k = some timer) (heap : P.Heap) :
    (ref.queue heap).subtractRetained timer.retained = .ok ((ref.leave k).queue heap) := by
  have htotal : ref.retained.val = timer.retained.val + (ref.leave k).retained.val :=
    OrderedMap.total_erase bytes hk
  obtain ⟨rest, hsub, hrest⟩ := U64.exists_checkedSub (a := ref.retained) (b := timer.retained)
    (by omega)
  have heq : rest = (ref.leave k).retained := Fin.ext (by omega)
  rw [subtractRetained]
  simp only [show (ref.queue heap).retained.checkedSub timer.retained = some rest from hsub, heq]
  rfl

theorem checkRetained_ok (heap : P.Heap) (deadline : Deadline) (value : T)
    (hoverflow : ¬ 2 ^ 64 ≤ ref.agenda.pending.total bytes + (ref.measure value).val)
    (hsize : ¬ ref.limits.retainedBytes.val <
      ref.agenda.pending.total bytes + (ref.measure value).val) :
    ∃ total, (ref.queue heap).checkRetained deadline value (ref.measure value) =
        .ok (value, total) ∧
      total.val = ref.retained.val + (ref.measure value).val := by
  obtain ⟨total, hadd, htotal⟩ := U64.exists_checkedAdd (a := ref.retained)
    (b := ref.measure value) (not_le.mp hoverflow)
  refine ⟨total, ?_, htotal⟩
  rw [checkRetained]
  simp only [show (ref.queue heap).retained.checkedAdd (ref.measure value) = some total from hadd]
  refine if_neg ?_
  rw [Fin.lt_def, htotal]
  exact hsize

theorem schedule_queue (h : ref.Holds P heap) (deadline : Deadline) (value : T) :
    ∃ heap', (ref.queue heap).schedule deadline value =
        ((ref.schedule deadline value).1.queue heap', (ref.schedule deadline value).2) ∧
      (ref.schedule deadline value).1.Holds P heap' := by
  have hmeasure : (ref.queue heap).measure value = ref.measure value := rfl
  -- the checks of the source are those of the agenda, in the same order
  cases hrefusal : ref.refusal? value with
  | some refusal =>
    rw [schedule_refused hrefusal]
    refine ⟨heap, ?_, h⟩
    rw [refusal?, Agenda.refusal?] at hrefusal
    rw [TimerQueue.schedule, len_queue h, hmeasure]
    split_ifs at hrefusal with hcount hoverflow hsize hnumbers <;> cases hrefusal
    · exact if_pos hcount
    · refine (if_neg hcount).trans ?_
      have hadd : (ref.queue heap).retained.checkedAdd (ref.measure value) = none :=
        U64.checkedAdd_eq_none.mpr hoverflow
      simp only [checkRetained, hadd]
      rfl
    · refine (if_neg hcount).trans ?_
      obtain ⟨total, hadd, htotal⟩ := U64.exists_checkedAdd (a := (ref.queue heap).retained)
        (b := ref.measure value) (not_le.mp hoverflow)
      have hlimit : (ref.queue heap).limits.retainedBytes < total := by
        rw [Fin.lt_def, htotal]
        exact hsize
      simp only [checkRetained, hadd, if_pos hlimit]
      rfl
    · refine (if_neg hcount).trans ?_
      obtain ⟨total, hcheck, -⟩ := checkRetained_ok heap deadline value hoverflow hsize
      have hnext : (ref.queue heap).nextId = none := dif_neg (not_lt.mpr hnumbers)
      simp only [hcheck, hnext]
      rfl
  | none =>
    obtain ⟨hcount, hoverflow, hsize, hnumbers⟩ := Agenda.refusal?_eq_none.mp hrefusal
    obtain ⟨total, hcheck, htotal⟩ := checkRetained_ok heap deadline value
      (not_le.mpr hoverflow) (not_lt.mpr hsize)
    have hnext : (ref.queue heap).nextId = some ⟨ref.agenda.next, hnumbers⟩ := dif_pos hnumbers
    rw [schedule_entered deadline hrefusal]
    refine ⟨P.push heap ⟨timer deadline hrefusal⟩, ?_, enter_holds h deadline hrefusal⟩
    rw [TimerQueue.schedule, len_queue h, hmeasure, enter_queue deadline hrefusal htotal]
    refine (if_neg (not_le.mpr hcount)).trans ?_
    simp only [hcheck, hnext]
    rfl

theorem cancel_queue (h : ref.Holds P heap) (token : TimerToken) :
    ∃ heap', (ref.queue heap).cancel token =
        .ok ((ref.cancel token).1.queue heap', (ref.cancel token).2) ∧
      (ref.cancel token).1.Holds P heap' := by
  rw [TimerQueue.cancel, cancel]
  by_cases hown : token.owner = ref.owner
  · rw [if_pos hown]
    cases hfind : (P.intoVec (ref.queue heap).timers).findFinIdx?
        fun scheduled => scheduled.timer.token = token with
    | none =>
      -- a pending timer with this key would be in the heap under this token
      have hget : ref.agenda.pending.get? token.key = none := by
        by_contra hne
        obtain ⟨timer, hget⟩ := Option.ne_none_iff_exists'.mp hne
        have htoken : timer.token = token := by
          rw [ref.named hget]
          cases token
          simp only at hown
          simp [TimerToken.key, hown]
        have hmem : ⟨timer⟩ ∈ P.intoVec heap := by
          rw [mem_heap h, htoken]
          exact hget
        have hnot := List.findFinIdx?_eq_none_iff.mp hfind _ hmem
        simp [htoken] at hnot
      rw [hget]
      refine ⟨P.fromVec (P.intoVec heap), ?_, (P.fromVec_vec _).trans h⟩
      refine (if_neg (not_not.mpr hown)).trans ?_
      simp only [hfind]
      rfl
    | some index =>
      have htoken : ((P.intoVec (ref.queue heap).timers)[index]).timer.token = token := by
        simpa using (List.findFinIdx?_eq_some_iff.mp hfind).1
      have hget : ref.agenda.pending.get? token.key =
          some ((P.intoVec (ref.queue heap).timers)[index]).timer := by
        rw [← htoken]
        exact (mem_heap h).mp (List.getElem_mem _)
      rw [hget]
      refine ⟨P.fromVec (swapRemove (P.intoVec heap) index).2, ?_, leave_holds h hget ?_⟩
      · refine (if_neg (not_not.mpr hown)).trans ?_
        simp only [hfind]
        exact congrArg (Except.bind · _) (subtractRetained_queue hget _)
      · exact (swapRemove_perm _ index).trans ((P.fromVec_vec _).symm.cons _)
  · rw [if_neg hown]
    exact ⟨heap, if_pos hown, h⟩

theorem popDue_queue (h : ref.Holds P heap) (now : Moment) :
    ∃ heap', (ref.queue heap).popDue now =
        .ok ((ref.popDue now).1.queue heap', (ref.popDue now).2) ∧
      (ref.popDue now).1.Holds P heap' := by
  rw [TimerQueue.popDue, nextDeadline_queue h, nextDeadline, popDue]
  cases hfirst : ref.agenda.pending.first? with
  | none => exact ⟨heap, rfl, h⟩
  | some e =>
    simp only [Option.map_some, Option.any_some, Deadline.isElapsedAt, decide_eq_true_eq]
    split_ifs with hdue
    · have hget := OrderedMap.get?_first? hfirst
      have hpeek := peek_eq h
      rw [hfirst, ← P.pop_peek] at hpeek
      obtain ⟨⟨scheduled, heap'⟩, hpop, hscheduled⟩ := Option.map_eq_some_iff.mp hpeek
      obtain rfl : scheduled = ⟨e.2⟩ := hscheduled
      refine ⟨heap', ?_, leave_holds h hget (P.pop_vec hpop)⟩
      simp only [show P.pop (ref.queue heap).timers = some (⟨e.2⟩, heap') from hpop]
      exact congrArg (Except.bind · _) (subtractRetained_queue hget heap')
    · exact ⟨heap, rfl, h⟩

/-- The loop takes what the list hands over, one timer at a time. -/
theorem drainLoop_queue (now : Moment) (budget : ℕ) {ref : TimerList T} {heap : P.Heap}
    (h : ref.Holds P heap) (destination : List (Timer T)) (fired : ℕ) :
    ∃ heap', drainLoop now budget (ref.queue heap) destination fired =
        .ok ((drain now budget ref).1.queue heap', destination ++ (drain now budget ref).2,
          fired + (drain now budget ref).2.length) ∧
      (drain now budget ref).1.Holds P heap' := by
  induction budget generalizing ref heap destination fired with
  | zero => exact ⟨heap, by rw [drainLoop, drain, List.append_nil]; rfl, h⟩
  | succ budget ih =>
    obtain ⟨heap₁, hpop, hholds⟩ := popDue_queue h now
    rw [drainLoop, drain, hpop]
    cases hresult : ref.popDue now with
    | mk ref₁ result =>
      rw [hresult] at hholds
      cases result with
      | none => exact ⟨heap₁, by rw [List.append_nil]; rfl, hholds⟩
      | some timer =>
        obtain ⟨heap₂, hloop, hholds₂⟩ := ih hholds (destination ++ [timer]) (fired + 1)
        refine ⟨heap₂, hloop.trans ?_, hholds₂⟩
        rw [List.append_assoc, List.singleton_append, List.length_cons, Nat.add_right_comm,
          Nat.add_assoc]

theorem drainDueInto_queue (h : ref.Holds P heap) (now : Moment) (destination : List (Timer T))
    (budget : NonZeroUsize) :
    ∃ heap', (ref.queue heap).drainDueInto now destination budget =
        .ok ((drain now budget.get.val ref).1.queue heap',
          destination ++ (drain now budget.get.val ref).2,
          ⟨(drain now budget.get.val ref).2.length,
            (drain now budget.get.val ref).1.nextDeadline.any fun deadline => deadline ≤ now⟩) ∧
      (drain now budget.get.val ref).1.Holds P heap' := by
  obtain ⟨heap', hloop, hholds⟩ := drainLoop_queue now budget.get.val h destination 0
  refine ⟨heap', ?_, hholds⟩
  rw [drainDueInto, hloop, Nat.zero_add]
  show Except.ok (_, _, TimerDrain.mk _ _) = _
  rw [nextDeadline_queue hholds]
  rfl

/-- **Refinement of one call**: it returns, and is the same call on the reference. -/
theorem exec_queue (h : ref.Holds P heap) (op : Op T) :
    ∃ heap' reply, (ref.queue heap).exec op = .ok ((ref.exec op).1.queue heap', reply) ∧
      reply.Same (ref.exec op).2 ∧ (ref.exec op).1.Holds P heap' := by
  cases op with
  | schedule deadline value =>
    obtain ⟨heap', hschedule, hholds⟩ := schedule_queue h deadline value
    refine ⟨heap', _, ?_, .refl, hholds⟩
    rw [TimerQueue.exec, hschedule]
    rfl
  | cancel token =>
    obtain ⟨heap', hcancel, hholds⟩ := cancel_queue h token
    refine ⟨heap', _, ?_, .refl, hholds⟩
    rw [TimerQueue.exec, hcancel]
    rfl
  | popDue now =>
    obtain ⟨heap', hpop, hholds⟩ := popDue_queue h now
    refine ⟨heap', _, ?_, .refl, hholds⟩
    rw [TimerQueue.exec, hpop]
    rfl
  | drainDueInto now destination budget =>
    obtain ⟨heap', hdrain, hholds⟩ := drainDueInto_queue h now destination budget
    refine ⟨heap', _, ?_, .refl, hholds⟩
    rw [TimerQueue.exec, hdrain]
    rfl
  | nextDeadline =>
    refine ⟨heap, _, ?_, .refl, h⟩
    rw [TimerQueue.exec, nextDeadline_queue h]
    rfl
  | iter =>
    exact ⟨heap, _, rfl, .reordered (iter_perm h), h⟩
  | snapshot =>
    refine ⟨heap, _, ?_, .refl, h⟩
    rw [TimerQueue.exec, TimerQueue.snapshot, nextDeadline_queue h, len_queue h]
    rfl

/-! ### What the calls do to the accounts -/

theorem cancel_cases (ref : TimerList T) (token : TimerToken) :
    ref.cancel token = (ref, none) ∨
    ∃ timer, ref.agenda.pending.get? token.key = some timer ∧
      ref.cancel token = (ref.leave token.key, some timer) := by
  rw [cancel]
  split_ifs
  · cases hget : ref.agenda.pending.get? token.key with
    | none => exact .inl rfl
    | some timer => exact .inr ⟨timer, rfl, rfl⟩
  · exact .inl rfl

theorem popDue_cases (ref : TimerList T) (now : Moment) :
    ref.popDue now = (ref, none) ∨
    ∃ e, ref.agenda.pending.first? = some e ∧ (ofLex e.1).1 ≤ now ∧
      ref.popDue now = (ref.leave e.1, some e.2) := by
  rw [popDue]
  cases hfirst : ref.agenda.pending.first? with
  | none => exact .inl rfl
  | some e =>
    dsimp only
    split_ifs with hdue
    · exact .inr ⟨e, rfl, hdue, rfl⟩
    · exact .inl rfl

/-- A timer under its key. -/
def keyed (timer : Timer T) : (Deadline ×ₗ TimerId) × Timer T := (timer.token.key, timer)

section

variable {entered : List ((Deadline ×ₗ TimerId) × Timer T)} {left : List (Timer T)}

theorem leave_ledger (h : Agenda.Ledger entered (left.map keyed) ref.agenda)
    {k : Deadline ×ₗ TimerId} {timer : Timer T} (hk : ref.agenda.pending.get? k = some timer) :
    Agenda.Ledger entered ((left ++ [timer]).map keyed) (ref.leave k).agenda := by
  rw [List.map_append, List.map_singleton, keyed, key_of_get? hk]
  exact h.remove hk

theorem cancel_ledger (h : Agenda.Ledger entered (left.map keyed) ref.agenda)
    (token : TimerToken) :
    Agenda.Ledger entered ((left ++ (ref.cancel token).2.toList).map keyed)
      (ref.cancel token).1.agenda := by
  rcases ref.cancel_cases token with hnone | ⟨timer, hget, hsome⟩
  · rw [hnone, Option.toList_none, List.append_nil]
    exact h
  · rw [hsome]
    exact leave_ledger h hget

theorem popDue_ledger (h : Agenda.Ledger entered (left.map keyed) ref.agenda) (now : Moment) :
    Agenda.Ledger entered ((left ++ (ref.popDue now).2.toList).map keyed)
      (ref.popDue now).1.agenda := by
  rcases ref.popDue_cases now with hnone | ⟨e, hfirst, -, hsome⟩
  · rw [hnone, Option.toList_none, List.append_nil]
    exact h
  · rw [hsome]
    exact leave_ledger h (OrderedMap.get?_first? hfirst)

theorem drain_ledger (now : Moment) (budget : ℕ) {ref : TimerList T} {left : List (Timer T)}
    (h : Agenda.Ledger entered (left.map keyed) ref.agenda) :
    Agenda.Ledger entered ((left ++ (drain now budget ref).2).map keyed)
      (drain now budget ref).1.agenda := by
  induction budget generalizing ref left with
  | zero =>
    rw [drain, List.append_nil]
    exact h
  | succ budget ih =>
    have hpop := popDue_ledger h now
    rw [drain]
    cases hresult : ref.popDue now with
    | mk ref₁ result =>
      rw [hresult] at hpop
      cases result with
      | none => exact hpop
      | some timer =>
        have hrest := ih hpop
        rw [List.append_assoc] at hrest
        exact hrest

end

end TimerList

/-! ### Every history -/

/-- The timer that a call admitted. -/
def admittedBy (measure : T → RetainedBytes) : Op T × Reply T → List (Timer T)
  | (.schedule _ value, .admission (.ok token)) => [⟨token, value, measure value⟩]
  | _ => []

/-- The timers that a call handed over. -/
def leftBy : Op T × Reply T → List (Timer T)
  | (.cancel _, .cancelled result) | (.popDue _, .due result) => result.toList
  | (.drainDueInto _ destination _, .drained destination' _) =>
    destination'.drop destination.length
  | _ => []

namespace TimerList

/-- What a history has to do with the list it ends in. -/
structure History (measure : T → RetainedBytes) (tr : List (Op T × Reply T))
    (ref : TimerList T) : Prop where
  measure_eq : ref.measure = measure
  ledger : Agenda.Ledger ((tr.flatMap (admittedBy measure)).map keyed)
    ((tr.flatMap leftBy).map keyed) ref.agenda

/-- A refused call changes nothing. -/
theorem exec_refused {ref : TimerList T} {op : Op T} (h : (ref.exec op).2.refused = true) :
    (ref.exec op).1 = ref := by
  cases op with
  | schedule deadline value =>
    change Reply.refused (.admission (ref.schedule deadline value).2) = true at h
    show (ref.schedule deadline value).1 = ref
    cases hrefusal : ref.refusal? value with
    | some refusal => rw [schedule_refused hrefusal]
    | none =>
      rw [schedule_entered deadline hrefusal] at h
      cases h
  | cancel token =>
    change Reply.refused (.cancelled (ref.cancel token).2) = true at h
    show (ref.cancel token).1 = ref
    rcases ref.cancel_cases token with hnone | ⟨timer, -, hsome⟩
    · rw [hnone]
    · rw [hsome] at h
      cases h
  | popDue now =>
    change Reply.refused (.due (ref.popDue now).2) = true at h
    show (ref.popDue now).1 = ref
    rcases ref.popDue_cases now with hnone | ⟨e, -, -, hsome⟩
    · rw [hnone]
    · rw [hsome] at h
      cases h
  | drainDueInto now destination budget => cases h
  | nextDeadline => rfl
  | iter => rfl
  | snapshot => rfl

theorem popDue_measure (ref : TimerList T) (now : Moment) :
    (ref.popDue now).1.measure = ref.measure := by
  rcases ref.popDue_cases now with hnone | ⟨e, -, -, hsome⟩
  · rw [hnone]
  · rw [hsome]
    rfl

theorem drain_measure (now : Moment) (budget : ℕ) (ref : TimerList T) :
    (drain now budget ref).1.measure = ref.measure := by
  induction budget generalizing ref with
  | zero => rfl
  | succ budget ih =>
    have hpop := ref.popDue_measure now
    rw [drain]
    cases hresult : ref.popDue now with
    | mk ref₁ result =>
      rw [hresult] at hpop
      cases result with
      | none => exact hpop
      | some timer => exact (ih ref₁).trans hpop

theorem exec_measure (ref : TimerList T) (op : Op T) : (ref.exec op).1.measure = ref.measure := by
  cases op with
  | schedule deadline value =>
    show (ref.schedule deadline value).1.measure = ref.measure
    cases hrefusal : ref.refusal? value with
    | some refusal => rw [schedule_refused hrefusal]
    | none =>
      rw [schedule_entered deadline hrefusal]
      rfl
  | cancel token =>
    show (ref.cancel token).1.measure = ref.measure
    rcases ref.cancel_cases token with hnone | ⟨timer, -, hsome⟩
    · rw [hnone]
    · rw [hsome]
      rfl
  | popDue now => exact ref.popDue_measure now
  | drainDueInto now destination budget => exact drain_measure now budget.get.val ref
  | nextDeadline => rfl
  | iter => rfl
  | snapshot => rfl

theorem History.next {measure : T → RetainedBytes} {tr : List (Op T × Reply T)}
    {ref : TimerList T} (h : History measure tr ref) (op : Op T) {reply : Reply T}
    (hreply : reply.Same (ref.exec op).2) :
    History measure (tr ++ [(op, reply)]) (ref.exec op).1 := by
  obtain ⟨rfl, hledger⟩ := h
  refine ⟨exec_measure ref op, ?_⟩
  rw [List.flatMap_append, List.flatMap_append, List.flatMap_singleton, List.flatMap_singleton]
  cases op with
  | schedule deadline value =>
    cases hreply
    show Agenda.Ledger ((_ ++ admittedBy ref.measure (_, .admission (ref.schedule deadline value).2)).map
      keyed) ((_ ++ []).map keyed) (ref.schedule deadline value).1.agenda
    rw [List.append_nil]
    cases hrefusal : ref.refusal? value with
    | some refusal =>
      rw [schedule_refused hrefusal, admittedBy, List.append_nil]
      exact hledger
      exact nofun
    | none =>
      rw [schedule_entered deadline hrefusal, List.map_append]
      exact hledger.admitItem deadline (timer deadline hrefusal) (Agenda.next_lt hrefusal)
  | cancel token =>
    cases hreply
    rw [show admittedBy ref.measure (Op.cancel token, _) = [] from rfl, List.append_nil]
    exact cancel_ledger hledger token
  | popDue now =>
    cases hreply
    rw [show admittedBy ref.measure (Op.popDue now, _) = [] from rfl, List.append_nil]
    exact popDue_ledger hledger now
  | drainDueInto now destination budget =>
    cases hreply
    have hfired : leftBy (Op.drainDueInto now destination budget,
        (ref.exec (.drainDueInto now destination budget)).2) = (drain now budget.get.val ref).2 :=
      List.drop_left
    rw [show admittedBy ref.measure (Op.drainDueInto now destination budget, _) = [] from rfl,
      List.append_nil, hfired]
    exact drain_ledger now budget.get.val hledger
  | nextDeadline | iter | snapshot =>
    show Agenda.Ledger ((_ ++ []).map keyed) ((_ ++ []).map keyed) ref.agenda
    rw [List.append_nil, List.append_nil]
    exact hledger

/-- A timer that was handed over is no longer pending. -/
theorem History.not_pending {measure : T → RetainedBytes} {tr : List (Op T × Reply T)}
    {ref : TimerList T} (h : History measure tr ref) {timer : Timer T}
    (htimer : timer ∈ tr.flatMap leftBy) : ref.agenda.pending.get? timer.token.key = none := by
  rw [Option.eq_none_iff_forall_ne_some]
  intro timer' hget
  have hnodup := h.ledger.left_nodup
  rw [List.map_append, List.nodup_append'] at hnodup
  -- its number would be both among those that left and among the pending ones
  have hleft : timer.token.id ∈ ((tr.flatMap leftBy).map keyed).map Agenda.number :=
    List.mem_map.mpr ⟨_, List.mem_map.mpr ⟨_, htimer, rfl⟩, rfl⟩
  have hpending : timer.token.id ∈ ref.agenda.pending.entries.map Agenda.number :=
    List.mem_map.mpr ⟨_, OrderedMap.mem_entries.mpr hget, rfl⟩
  exact hnodup.2.2 hleft hpending

/-- The same calls on the reference. -/
def system (owner : TimerOwnerId) (limits : TimerLimits) (firstId : TimerId)
    (measure : T → RetainedBytes) : TransitionSystem (TimerList T) (Op T × Reply T) where
  init ref := ref = .start owner limits firstId measure
  step ref l ref' := (ref.exec l.1).1 = ref' ∧ l.2.Same (ref.exec l.1).2

end TimerList

section

variable {owner : TimerOwnerId} {limits : TimerLimits} {firstId : TimerId}
  {measure : T → RetainedBytes} {tr : List (Op T × Reply T)} {queue : TimerQueue P}

theorem run_queue (h : (system P owner limits firstId measure).Run tr queue) :
    ∃ ref heap, (TimerList.system owner limits firstId measure).Run tr ref ∧
      queue = ref.queue heap ∧ ref.Holds P heap := by
  obtain ⟨_, rfl, hsteps⟩ := h
  have hsim : ∃ ref, Steps (TimerList.system owner limits firstId measure).step
      (.start owner limits firstId measure) tr ref ∧
        ∃ heap, queue = ref.queue heap ∧ ref.Holds P heap := by
    refine hsteps.simulate
      (R := fun queue ref => ∃ heap, queue = TimerList.queue ref heap ∧ ref.Holds P heap) ?_ ?_
    · rintro _ ⟨op, reply⟩ queue' ref ⟨heap, rfl, hholds⟩ hexec
      obtain ⟨heap', reply', hqueue, hsame, hholds'⟩ := TimerList.exec_queue hholds op
      cases hqueue.symm.trans hexec
      exact ⟨_, ⟨rfl, hsame⟩, heap', rfl, hholds'⟩
    · refine ⟨P.new, ?_, ?_⟩
      · have hnumber : (TimerList.start owner limits firstId measure).agenda.number?
            = some firstId := dif_pos firstId.isLt
        rw [TimerList.queue, hnumber]
        rfl
      · rw [TimerList.Holds, P.new_vec]
        exact .nil
  obtain ⟨ref, hrun, heap, heq, hholds⟩ := hsim
  exact ⟨ref, heap, ⟨_, rfl, hrun⟩, heq, hholds⟩

theorem TimerList.run_history {ref : TimerList T}
    (h : (TimerList.system owner limits firstId measure).Run tr ref) : History measure tr ref := by
  refine h.invariant (I := fun tr ref => History measure tr ref) ?_ ?_
  · rintro ref rfl
    exact ⟨rfl, .startingAt firstId.val⟩
  · rintro tr ref ⟨op, reply⟩ _ _ hhistory ⟨rfl, hsame⟩
    exact hhistory.next op hsame

/-- What holds of a queue after a history `tr`. -/
structure Conforms (measure : T → RetainedBytes) (tr : List (Op T × Reply T))
    (queue : TimerQueue P) : Prop where
  /-- Every admitted timer was handed over or is pending, and each once. -/
  balance : (tr.flatMap (admittedBy measure)).Perm (tr.flatMap leftBy ++ queue.iter)
  /-- Identities are given out in order of admission, none of them twice. -/
  numbered : ((tr.flatMap (admittedBy measure)).map fun timer => timer.token.id).Pairwise (· < ·)
  /-- The token of a timer that was handed over names nothing any more. -/
  stale : ∀ timer ∈ tr.flatMap leftBy, ∃ queue', queue.cancel timer.token = .ok (queue', none)
  retained : queue.retained.val = (queue.iter.map fun timer => (measure timer.value).val).sum
  bytes : queue.retained ≤ queue.limits.retainedBytes

theorem TimerList.History.conforms {ref : TimerList T} {heap : P.Heap}
    (h : History measure tr ref) (hholds : ref.Holds P heap) :
    Conforms measure tr (ref.queue heap) where
  balance := by
    have hbalance := h.ledger.balance.map Prod.snd
    rw [List.map_append, List.map_map, List.map_map,
      show Prod.snd ∘ keyed = (id : Timer T → Timer T) from rfl, List.map_id, List.map_id]
      at hbalance
    exact hbalance.trans ((iter_perm hholds).symm.append_left _)
  numbered := by
    have hincreasing := h.ledger.increasing
    rwa [List.map_map] at hincreasing
  stale timer htimer := by
    obtain ⟨heap', hcancel, -⟩ := cancel_queue hholds timer.token
    have hnone : ref.cancel timer.token = (ref, none) := by
      rcases ref.cancel_cases timer.token with hnone | ⟨timer', hget, -⟩
      · exact hnone
      · cases (h.not_pending htimer).symm.trans hget
    rw [hnone] at hcancel
    exact ⟨_, hcancel⟩
  retained := by
    have hsum := ((iter_perm hholds).map fun timer => (measure timer.value).val).sum_nat
    rw [hsum, OrderedMap.values, List.map_map]
    refine congrArg List.sum (List.map_congr_left fun e he => ?_)
    show e.2.retained.val = (measure e.2.value).val
    rw [ref.measured (OrderedMap.mem_entries.mp he), h.measure_eq]
  bytes := ref.within.size

/-- **A timer queue is a sorted list of timers.**  For every owner, limits, first
identity, measurement and sequence of calls, over any heap that is a priority
queue, the queue is that of the reference after the same calls with the same
replies, and conforms to its history.  The next call, whatever it is, returns what
the reference returns and, if it is refused, changes nothing; a rejected admission
does not touch the heap either. -/
theorem refines_timer_list (h : (system P owner limits firstId measure).Run tr queue) :
    ∃ ref heap, (TimerList.system owner limits firstId measure).Run tr ref ∧
      queue = ref.queue heap ∧ ref.Holds P heap ∧ Conforms measure tr queue ∧
      ∀ op, ∃ ref' heap' reply, queue.exec op = .ok (ref'.queue heap', reply) ∧
        (ref.exec op).1 = ref' ∧ reply.Same (ref.exec op).2 ∧ ref'.Holds P heap' ∧
        (reply.refused = true → ref' = ref) ∧
        ∀ error, reply = .admission (.error error) → ref'.queue heap' = queue := by
  obtain ⟨ref, heap, hrun, rfl, hholds⟩ := run_queue h
  refine ⟨ref, heap, hrun, rfl, hholds, (TimerList.run_history hrun).conforms hholds,
    fun op => ?_⟩
  obtain ⟨heap', reply, hexec, hsame, hholds'⟩ := TimerList.exec_queue hholds op
  refine ⟨_, heap', reply, hexec, rfl, hsame, hholds', fun hrefused => ?_, ?_⟩
  · exact TimerList.exec_refused (hsame.refused ▸ hrefused)
  · rintro error rfl
    exact exec_rejected hexec

/-- Two timers of one deadline; the first is cancelled, and the second fires. -/
theorem refines_timer_list_cancelled :
    ∃ queue : TimerQueue (PriorityQueue.sorted (Scheduled ℕ) Scheduled.cmp),
      Conforms (fun _ => 2)
        [(.schedule 5 10, .admission (.ok ⟨1, 7, 5⟩)), (.schedule 5 20, .admission (.ok ⟨1, 8, 5⟩)),
          (.cancel ⟨1, 7, 5⟩, .cancelled (some ⟨⟨1, 7, 5⟩, 10, 2⟩)),
          (.popDue 4, .due none), (.popDue 6, .due (some ⟨⟨1, 8, 5⟩, 20, 2⟩))] queue := by
  let P := PriorityQueue.sorted (Scheduled ℕ) Scheduled.cmp
  let first : Scheduled ℕ := ⟨⟨1, 7, 5⟩, 10, 2⟩
  let second : Scheduled ℕ := ⟨⟨1, 8, 5⟩, 20, 2⟩
  let q₀ : TimerQueue P := startingAtWithMeasure P 1 ⟨⟨3, by decide⟩, 6⟩ 7 fun _ => 2
  let q₁ : TimerQueue P := { q₀ with
    timers := ⟨[first], by simp⟩, nextId := some 8, retained := 2 }
  let q₂ : TimerQueue P := { q₀ with
    timers := ⟨[first, second], by decide⟩, nextId := some 9, retained := 4 }
  let q₃ : TimerQueue P := { q₀ with
    timers := ⟨[second], by simp⟩, nextId := some 9, retained := 2 }
  let q₄ : TimerQueue P := { q₀ with timers := ⟨[], .nil⟩, nextId := some 9, retained := 0 }
  have h1 : q₀.exec (.schedule 5 10) = .ok (q₁, .admission (.ok ⟨1, 7, 5⟩)) := rfl
  have h2 : q₁.exec (.schedule 5 20) = .ok (q₂, .admission (.ok ⟨1, 8, 5⟩)) := rfl
  have h3 : q₂.exec (.cancel ⟨1, 7, 5⟩) = .ok (q₃, .cancelled (some ⟨⟨1, 7, 5⟩, 10, 2⟩)) := rfl
  have h4 : q₃.exec (.popDue 4) = .ok (q₃, .due none) := rfl
  have h5 : q₃.exec (.popDue 6) = .ok (q₄, .due (some ⟨⟨1, 8, 5⟩, 20, 2⟩)) := rfl
  have hrun : (system P 1 ⟨⟨3, by decide⟩, 6⟩ 7 fun _ : ℕ => 2).Run _ q₄ :=
    (((((TransitionSystem.Run.start rfl).next (l := (_, _)) h1).next (l := (_, _)) h2).next
      (l := (_, _)) h3).next (l := (_, _)) h4).next (l := (_, _)) h5
  obtain ⟨_, _, -, -, -, hconforms, -⟩ := refines_timer_list hrun
  exact ⟨q₄, hconforms⟩

end

end TimerQueue

end Calandria
