/-
Draining a timer queue in bounded portions.

At a moment the pending timers are those that are due, in order of firing, and
the others (`DueAt`).  A drain takes a prefix of the former and leaves the rest
as it was, so a drain of `a + b` is a drain of `a` followed by one of `b`.

* `TimerList.drain_due` — what a drain of the reference takes and leaves;
* `drainLoop_add` — the loop of the source splits at any point of the budget;
* `drains_compose` — both, for every queue that calls can produce.
-/
import Calandria.TimerSchedule

namespace Calandria

namespace TimerQueue

variable {T : Type} {P : PriorityQueue (Scheduled T) Scheduled.cmp}

/-- The pending timers are `due` at `now`, in order of firing, or `later`. -/
structure DueAt (queue : TimerQueue P) (now : Moment) (due later : List (Timer T)) : Prop where
  pending : queue.iter.Perm (due ++ later)
  ordered : due.Pairwise fun x y => x.token.key < y.token.key
  elapsed : ∀ timer ∈ due, timer.deadline.isElapsedAt now = true
  ahead : ∀ timer ∈ later, timer.deadline.isElapsedAt now = false

namespace TimerList

/-! ### The due timers of the reference -/

/-- The timers whose deadline has come, in order of firing. -/
def due (ref : TimerList T) (now : Moment) : List (Timer T) :=
  (ref.agenda.pending.entries.filter fun e => (ofLex e.1).1 ≤ now).map Prod.snd

/-- The other timers. -/
def later (ref : TimerList T) (now : Moment) : List (Timer T) :=
  (ref.agenda.pending.entries.filter fun e => ¬(ofLex e.1).1 ≤ now).map Prod.snd

variable {ref : TimerList T} {heap : P.Heap} {now : Moment}

theorem due_leave {e : (Deadline ×ₗ TimerId) × Timer T} (he : ref.agenda.pending.first? = some e)
    (hdue : (ofLex e.1).1 ≤ now) : ref.due now = e.2 :: (ref.leave e.1).due now := by
  rw [due, OrderedMap.entries_first? he, List.filter_cons_of_pos (by simpa using hdue)]
  rfl

theorem later_leave {e : (Deadline ×ₗ TimerId) × Timer T}
    (he : ref.agenda.pending.first? = some e) (hdue : (ofLex e.1).1 ≤ now) :
    ref.later now = (ref.leave e.1).later now := by
  rw [later, OrderedMap.entries_first? he, List.filter_cons_of_neg (by simpa using hdue)]
  rfl

/-- Nothing is due before the first timer. -/
theorem due_eq_nil (h : ∀ e, ref.agenda.pending.first? = some e → now < (ofLex e.1).1) :
    ref.due now = [] := by
  rw [due, List.filter_eq_nil_iff.mpr, List.map_nil]
  intro e he
  cases hfirst : ref.agenda.pending.first? with
  | none =>
    have hnone := OrderedMap.first?_eq_none.mp hfirst e.1
    rw [OrderedMap.mem_entries.mp (show (e.1, e.2) ∈ _ from he)] at hnone
    cases hnone
  | some first =>
    have hle := OrderedMap.first?_le hfirst (OrderedMap.mem_entries.mp (show (e.1, e.2) ∈ _ from he))
    have hmoment : (ofLex first.1).1 ≤ (ofLex e.1).1 := by
      rcases Prod.Lex.le_iff.mp hle with hlt | heq
      · exact hlt.le
      · exact heq.1.le
    simpa using (h first hfirst).trans_le hmoment

theorem nextDeadline_due (ref : TimerList T) (now : Moment) :
    (ref.nextDeadline.any fun deadline => deadline ≤ now) = decide (0 < (ref.due now).length) := by
  rw [nextDeadline]
  cases hfirst : ref.agenda.pending.first? with
  | none =>
    have hnil : ref.due now = [] := due_eq_nil fun e he => by
      rw [hfirst] at he
      cases he
    rw [hnil]
    rfl
  | some e =>
    by_cases hdue : (ofLex e.1).1 ≤ now
    · rw [due_leave hfirst hdue]
      simpa using hdue
    · have hnil : ref.due now = [] := due_eq_nil fun e' he' => by
        rw [← Option.some_inj.mp (hfirst.symm.trans he')]
        exact not_le.mp hdue
      rw [hnil]
      simpa using hdue

theorem due_of_popDue (h : ref.popDue now = (ref, none)) : ref.due now = [] := by
  refine due_eq_nil fun e he => ?_
  rw [popDue, he] at h
  by_contra hdue
  simp only [not_lt.mp hdue, if_true, Prod.mk.injEq, reduceCtorEq, and_false] at h

/-- The reference and what a drain made of it agree on all but the timers. -/
structure SameOwner (ref ref' : TimerList T) : Prop where
  owner : ref'.owner = ref.owner
  limits : ref'.limits = ref.limits
  measure : ref'.measure = ref.measure
  next : ref'.agenda.next = ref.agenda.next

/-- A drain takes the first of the due timers. -/
theorem drain_due (now : Moment) (budget : ℕ) (ref : TimerList T) :
    (drain now budget ref).2 = (ref.due now).take budget ∧
    (drain now budget ref).1.due now = (ref.due now).drop budget ∧
    (drain now budget ref).1.later now = ref.later now ∧
    ref.SameOwner (drain now budget ref).1 := by
  induction budget generalizing ref with
  | zero => exact ⟨rfl, rfl, rfl, rfl, rfl, rfl, rfl⟩
  | succ budget ih =>
    rw [drain]
    rcases popDue_cases ref now with hnone | ⟨e, hfirst, hdue, hpop⟩
    · rw [hnone, due_of_popDue hnone]
      exact ⟨rfl, rfl, rfl, rfl, rfl, rfl, rfl⟩
    · obtain ⟨htaken, hleft, hlater, hsame⟩ := ih (ref.leave e.1)
      rw [hpop, due_leave hfirst hdue, later_leave hfirst hdue]
      exact ⟨congrArg _ htaken, hleft, hlater, hsame.owner, hsame.limits, hsame.measure,
        hsame.next⟩

theorem due_later_perm (ref : TimerList T) (now : Moment) :
    (ref.due now ++ ref.later now).Perm ref.agenda.pending.values := by
  rw [due, later, ← List.map_append]
  refine List.Perm.map _ ?_
  simpa only [decide_not] using List.filter_append_perm (fun e => decide ((ofLex e.1).1 ≤ now))
    ref.agenda.pending.entries

theorem retained_due (ref : TimerList T) (now : Moment) :
    ref.retained.val = ((ref.due now).map bytes).sum + ((ref.later now).map bytes).sum := by
  have hsum := ((ref.due_later_perm now).map bytes).sum_nat
  rw [List.map_append, List.sum_append] at hsum
  rw [hsum, OrderedMap.values, List.map_map]
  rfl

/-- The queue of a reference, in the terms of the source. -/
theorem dueAt_queue (h : ref.Holds P heap) (now : Moment) :
    (ref.queue heap).DueAt now (ref.due now) (ref.later now) where
  pending := (iter_perm h).trans (ref.due_later_perm now).symm
  ordered := by
    have hsorted := ref.agenda.pending.sorted.filter fun e => decide ((ofLex e.1).1 ≤ now)
    refine List.pairwise_map.mpr (hsorted.imp_of_mem fun {e e'} he he' hlt => ?_)
    have hkey := key_of_get? (OrderedMap.mem_entries.mp (List.mem_of_mem_filter he))
    have hkey' := key_of_get? (OrderedMap.mem_entries.mp (List.mem_of_mem_filter he'))
    rw [hkey, hkey']
    exact hlt
  elapsed timer htimer := by
    obtain ⟨e, he, rfl⟩ := List.mem_map.mp htimer
    obtain ⟨hmem, hle⟩ := List.mem_filter.mp he
    rw [Timer.deadline, ref.named (OrderedMap.mem_entries.mp hmem)]
    exact hle
  ahead timer htimer := by
    obtain ⟨e, he, rfl⟩ := List.mem_map.mp htimer
    obtain ⟨hmem, hlt⟩ := List.mem_filter.mp he
    rw [Timer.deadline, ref.named (OrderedMap.mem_entries.mp hmem)]
    simpa [Deadline.isElapsedAt] using hlt

end TimerList

/-! ### Splitting the loop -/

/-- When nothing is due the queue stays as it is. -/
theorem popDue_none {queue queue' : TimerQueue P} {now : Moment}
    (h : queue.popDue now = .ok (queue', none)) : queue' = queue := by
  rw [popDue] at h
  split_ifs at h with hdue
  · cases hpop : P.pop queue.timers with
    | none =>
      rw [hpop] at h
      cases h
      rfl
    | some popped =>
      rw [hpop] at h
      dsimp only at h
      cases hsub : TimerQueue.subtractRetained { queue with timers := popped.2 }
          popped.1.timer.retained with
      | error panic =>
        rw [hsub] at h
        cases h
      | ok rest =>
        rw [hsub] at h
        cases h
  · cases h
    rfl

/-- The number of timers fired before the loop only adds to the result. -/
theorem drainLoop_fired (now : Moment) (budget : ℕ) (queue : TimerQueue P)
    (destination : List (Timer T)) (fired before : ℕ) :
    drainLoop now budget queue destination (before + fired)
      = (drainLoop now budget queue destination fired).map
          fun (queue, destination, fired) => (queue, destination, before + fired) := by
  induction budget generalizing queue destination fired with
  | zero => rfl
  | succ budget ih =>
    rw [drainLoop, drainLoop]
    cases queue.popDue now with
    | error panic => rfl
    | ok result =>
      obtain ⟨queue', taken⟩ := result
      cases taken with
      | none => rfl
      | some timer => exact ih queue' (destination ++ [timer]) (fired + 1)

/-- A loop of `a + b` is a loop of `a` and then one of `b`. -/
theorem drainLoop_add (now : Moment) (a b : ℕ) {queue queue' : TimerQueue P}
    {destination destination' : List (Timer T)} {fired fired' : ℕ}
    (h : drainLoop now a queue destination fired = .ok (queue', destination', fired')) :
    drainLoop now (a + b) queue destination fired
      = drainLoop now b queue' destination' fired' := by
  -- on the first budget; a loop that stops early leaves nothing due for the second
  induction a generalizing queue destination fired with
  | zero =>
    cases h
    rw [Nat.zero_add]
  | succ a ih =>
    rw [Nat.succ_add]
    rw [drainLoop] at h ⊢
    cases hpop : queue.popDue now with
    | error panic =>
      rw [hpop] at h
      cases h
    | ok result =>
      obtain ⟨queue₁, taken⟩ := result
      rw [hpop] at h
      cases taken with
      | some timer => exact ih h
      | none =>
        cases h
        obtain rfl := popDue_none hpop
        cases b with
        | zero => rfl
        | succ b =>
          rw [drainLoop, hpop]
          rfl

theorem drainDueInto_eq {queue queue' : TimerQueue P} {now : Moment}
    {destination destination' : List (Timer T)} {budget : NonZeroUsize} {drain : TimerDrain}
    (h : queue.drainDueInto now destination budget = .ok (queue', destination', drain)) :
    drainLoop now budget.get.val queue destination 0 = .ok (queue', destination', drain.fired) ∧
    drain.moreDue = queue'.nextDeadline.any fun deadline => deadline.isElapsedAt now := by
  rw [drainDueInto] at h
  cases hloop : drainLoop now budget.get.val queue destination 0 with
  | error panic =>
    rw [hloop] at h
    cases h
  | ok result =>
    rw [hloop] at h
    cases h
    exact ⟨rfl, rfl⟩

/-- Two drains at one moment are one drain with both budgets. -/
theorem drainDueInto_add {queue queue₁ queue₂ : TimerQueue P} {now : Moment}
    {destination destination₁ destination₂ : List (Timer T)} {a b both : NonZeroUsize}
    {drain₁ drain₂ : TimerDrain} (hboth : both.get.val = a.get.val + b.get.val)
    (ha : queue.drainDueInto now destination a = .ok (queue₁, destination₁, drain₁))
    (hb : queue₁.drainDueInto now destination₁ b = .ok (queue₂, destination₂, drain₂)) :
    queue.drainDueInto now destination both
      = .ok (queue₂, destination₂, ⟨drain₁.fired + drain₂.fired, drain₂.moreDue⟩) := by
  obtain ⟨hloop₁, -⟩ := drainDueInto_eq ha
  obtain ⟨hloop₂, hmore⟩ := drainDueInto_eq hb
  have hfired := drainLoop_fired now b.get.val queue₁ destination₁ 0 drain₁.fired
  rw [hloop₂, Nat.add_zero] at hfired
  rw [drainDueInto, hboth, drainLoop_add now a.get.val b.get.val hloop₁, hfired, hmore]
  rfl

/-! ### Drains of a queue in use -/

section

variable {owner : TimerOwnerId} {limits : TimerLimits} {firstId : TimerId}
  {measure : T → RetainedBytes} {tr : List (Op T × Reply T)} {queue : TimerQueue P}

/-- What a drain of `budget` makes of a queue whose due timers are `due`. -/
structure Drained (queue queue' : TimerQueue P) (now : Moment) (due later : List (Timer T))
    (budget : ℕ) : Prop where
  left : queue'.DueAt now (due.drop budget) later
  owner : queue'.owner = queue.owner
  limits : queue'.limits = queue.limits
  measure : queue'.measure = queue.measure
  nextId : queue'.nextId = queue.nextId
  retained : queue.retained.val
    = ((due.take budget).map fun timer => timer.retained.val).sum + queue'.retained.val

theorem TimerList.drain_drained {ref : TimerList T} {heap heap' : P.Heap} (now : Moment)
    (budget : ℕ) (hholds : (drain now budget ref).1.Holds P heap') :
    (ref.queue heap).Drained ((drain now budget ref).1.queue heap') now (ref.due now)
      (ref.later now) budget := by
  obtain ⟨-, hleft, hlater, hsame⟩ := drain_due now budget ref
  refine ⟨?_, hsame.owner, hsame.limits, hsame.measure, ?_, ?_⟩
  · rw [← hleft, ← hlater]
    exact dueAt_queue hholds now
  · show Agenda.number? _ = Agenda.number? _
    rw [Agenda.number?, Agenda.number?]
    simp only [hsame.next]
  · have hall := ref.retained_due now
    have hrest := (drain now budget ref).1.retained_due now
    rw [hleft, hlater] at hrest
    have hsplit := congrArg (fun l => (l.map bytes).sum) (List.take_append_drop budget (ref.due now))
    simp only [List.map_append, List.sum_append] at hsplit
    show ref.retained.val = ((List.take budget (ref.due now)).map bytes).sum
      + (drain now budget ref).1.retained.val
    omega

/-- **Bounded timer drains compose.**  For every queue that calls can produce and
every moment, a drain moves the first `budget` of the due timers, in order of
firing, behind the destination and leaves everything else as it was; and draining
`a` and then `b` is draining `a + b`, down to the heap. -/
theorem drains_compose (h : (system P owner limits firstId measure).Run tr queue) (now : Moment) :
    ∃ due later, queue.DueAt now due later ∧
      (∀ destination budget, ∃ queue',
        queue.drainDueInto now destination budget
          = .ok (queue', destination ++ due.take budget.get.val,
              ⟨min budget.get.val due.length, decide (budget.get.val < due.length)⟩) ∧
        queue.Drained queue' now due later budget.get.val) ∧
      ∀ destination (a b both : NonZeroUsize), both.get.val = a.get.val + b.get.val →
        ∃ queue₁ destination₁ drain₁ queue₂ destination₂ drain₂,
          queue.drainDueInto now destination a = .ok (queue₁, destination₁, drain₁) ∧
          queue₁.drainDueInto now destination₁ b = .ok (queue₂, destination₂, drain₂) ∧
          queue.drainDueInto now destination both
            = .ok (queue₂, destination₂, ⟨drain₁.fired + drain₂.fired, drain₂.moreDue⟩) := by
  obtain ⟨ref, heap, -, rfl, hholds⟩ := run_queue h
  refine ⟨ref.due now, ref.later now, TimerList.dueAt_queue hholds now, ?_, ?_⟩
  · intro destination budget
    obtain ⟨heap', hdrain, hholds'⟩ := TimerList.drainDueInto_queue hholds now destination budget
    obtain ⟨htaken, hleft, -, -⟩ := TimerList.drain_due now budget.get.val ref
    refine ⟨_, hdrain.trans ?_, TimerList.drain_drained now budget.get.val hholds'⟩
    rw [TimerList.nextDeadline_due, htaken, hleft, List.length_take, List.length_drop]
    simp only [Nat.sub_pos_iff_lt]
  · intro destination a b both hboth
    obtain ⟨heap₁, hdrain₁, hholds₁⟩ := TimerList.drainDueInto_queue hholds now destination a
    obtain ⟨heap₂, hdrain₂, -⟩ := TimerList.drainDueInto_queue hholds₁ now
      (destination ++ (TimerList.drain now a.get.val ref).2) b
    exact ⟨_, _, _, _, _, _, hdrain₁, hdrain₂, drainDueInto_add hboth hdrain₁ hdrain₂⟩

/-- Two of three timers are due; they are drained one at a time. -/
theorem drains_compose_stepwise :
    ∃ queue queue₁ queue₂ : TimerQueue (PriorityQueue.sorted (Scheduled ℕ) Scheduled.cmp),
      queue.drainDueInto 6 [] ⟨1, by decide⟩
        = .ok (queue₁, [⟨⟨1, 8, 3⟩, 20, 1⟩], ⟨1, true⟩) ∧
      queue₁.drainDueInto 6 [⟨⟨1, 8, 3⟩, 20, 1⟩] ⟨1, by decide⟩
        = .ok (queue₂, [⟨⟨1, 8, 3⟩, 20, 1⟩, ⟨⟨1, 7, 5⟩, 10, 1⟩], ⟨1, false⟩) ∧
      queue.drainDueInto 6 [] ⟨2, by decide⟩
        = .ok (queue₂, [⟨⟨1, 8, 3⟩, 20, 1⟩, ⟨⟨1, 7, 5⟩, 10, 1⟩], ⟨2, false⟩) := by
  let P := PriorityQueue.sorted (Scheduled ℕ) Scheduled.cmp
  let first : Scheduled ℕ := ⟨⟨1, 7, 5⟩, 10, 1⟩
  let second : Scheduled ℕ := ⟨⟨1, 8, 3⟩, 20, 1⟩
  let third : Scheduled ℕ := ⟨⟨1, 9, 9⟩, 30, 1⟩
  let q₀ : TimerQueue P := startingAtWithMeasure P 1 ⟨⟨3, by decide⟩, 6⟩ 7 fun _ => 1
  let q₁ : TimerQueue P := { q₀ with
    timers := ⟨[first], by simp⟩, nextId := some 8, retained := 1 }
  let q₂ : TimerQueue P := { q₀ with
    timers := ⟨[second, first], by decide⟩, nextId := some 9, retained := 2 }
  let q₃ : TimerQueue P := { q₀ with
    timers := ⟨[second, first, third], by decide⟩, nextId := some 10, retained := 3 }
  let q₄ : TimerQueue P := { q₃ with timers := ⟨[first, third], by decide⟩, retained := 2 }
  let q₅ : TimerQueue P := { q₃ with timers := ⟨[third], by simp⟩, retained := 1 }
  have h1 : q₀.exec (.schedule 5 10) = .ok (q₁, .admission (.ok ⟨1, 7, 5⟩)) := rfl
  have h2 : q₁.exec (.schedule 3 20) = .ok (q₂, .admission (.ok ⟨1, 8, 3⟩)) := rfl
  have h3 : q₂.exec (.schedule 9 30) = .ok (q₃, .admission (.ok ⟨1, 9, 9⟩)) := rfl
  have hrun : (system P 1 ⟨⟨3, by decide⟩, 6⟩ 7 fun _ : ℕ => 1).Run _ q₃ :=
    (((TransitionSystem.Run.start rfl).next (l := (_, _)) h1).next (l := (_, _)) h2).next
      (l := (_, _)) h3
  have hfirst : q₃.drainDueInto 6 [] ⟨1, by decide⟩ = .ok (q₄, [second.timer], ⟨1, true⟩) := rfl
  have hsecond : q₄.drainDueInto 6 [second.timer] ⟨1, by decide⟩
      = .ok (q₅, [second.timer, first.timer], ⟨1, false⟩) := rfl
  obtain ⟨_, _, -, -, hsplit⟩ := drains_compose hrun 6
  obtain ⟨_, _, _, _, _, _, ha, hb, hboth⟩ := hsplit [] ⟨1, by decide⟩ ⟨1, by decide⟩
    ⟨2, by decide⟩ rfl
  cases hfirst.symm.trans ha
  cases hsecond.symm.trans hb
  exact ⟨q₃, q₄, q₅, hfirst, hsecond, hboth⟩

end

end TimerQueue

end Calandria
