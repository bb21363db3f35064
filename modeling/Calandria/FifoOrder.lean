/-
The order of deliveries under FIFO scheduling.

`Fifo` takes the canonically first action, so it looks at one ready set at a time.
Over a run this adds up to one order of all deliveries: by moment, and among
events of a moment by admission, whoever admitted them and whomever they are for.

* `Begins.first` — the action that begins is the least that is ready;
* `Begins.precedes` — so an event that is handed over precedes everything that
  stays pending;
* `FifoOrdered.next` — and everything that is admitted later;
* `fifo_order` — a run under FIFO delivers in order, and a duty has a turn only
  while no event is due.
-/
import Calandria.KernelRefinement

namespace Calandria

namespace Simulation

variable {M N N' S E O ME SE NE : Type} [Model M E O ME]

/-! ### One action -/

/-- FIFO begins with the least of the ready actions. -/
theorem Begins.first {sim started : Simulation M Fifo N E} {callback : Callback M E O ME}
    (h : sim.Begins started callback) {key : ActionKey} (hkey : key ∈ sim.enabled) :
    callback.metadata.key ≤ key := by
  have hchoice := h.choice
  have hsorted := sim.enabled_sorted
  cases henabled : sim.enabled with
  | nil => simp [henabled] at hkey
  | cons first rest =>
    rw [henabled] at hkey hsorted hchoice
    obtain rfl : first = callback.metadata.key := by
      have hsecond := congrArg Prod.snd hchoice
      exact Returned.ok.inj hsecond
    rcases List.mem_cons.mp hkey with rfl | hmem
    · exact le_rfl
    · exact ((List.pairwise_cons.mp hsorted).1 key hmem).le

/-- Deliveries of one timeline are in the order of their moments and identities. -/
theorem delivery_le {duty duty' : DutyId} {token token' : EventToken}
    (h : ActionKey.delivery duty token ≤ ActionKey.delivery duty' token')
    (hmoment : token.moment = token'.moment) (htimeline : token.timeline = token'.timeline) :
    token.key ≤ token'.key := by
  rw [← ActionKey.cmp_ne_gt] at h
  refine Prod.Lex.toLex_le_toLex.mpr (.inr ⟨hmoment, ?_⟩)
  by_contra hlt
  refine h ?_
  have hgt : compare token.id token'.id = .gt := compare_gt_iff_gt.mpr (not_le.mp hlt)
  simp [ActionKey.cmp, ActionKey.delivery, hmoment, htimeline, hgt]

variable [Retained E]

/-- The event that is handed over is the first of what is pending. -/
theorem Begins.precedes {sim started : Simulation M Fifo N E} {callback : Callback M E O ME}
    (h : sim.Begins started callback) (hs : sim.Sound) {token : EventToken} {routed : Routed E}
    (hdelivered : callback.delivered = some (token, routed)) {p : EventToken × Routed E}
    (hp : p ∈ sim.timeline.pending) (hne : p.1 ≠ token) : token.key < p.1.key := by
  obtain ⟨token', routed'⟩ := p
  obtain ⟨entry', hlook', rfl⟩ := Timeline.mem_pending.mp hp
  rcases h.handles with ⟨hnone, -⟩ | ⟨token₁, entry, hsome, hr, hkey, -, hmoment, -⟩
  · simp [hnone] at hdelivered
  obtain rfl : token = token₁ :=
    congrArg Prod.fst (Option.some_inj.mp (hdelivered.symm.trans hsome))
  have htimeline : token.timeline = token'.timeline :=
    (Timeline.lookup_own hr.pending).trans (Timeline.lookup_own hlook').symm
  have hnow : token.moment = sim.now := hmoment.symm.trans h.now.2
  -- an event of a later moment, or one that is due as well
  rcases (hs.wf.future hlook').eq_or_lt with heq | hlt
  · have hmem : ActionKey.delivery entry'.event.target token' ∈ sim.enabled :=
      mem_enabled.mpr (.inl (mem_dueDeliveries.mpr ⟨token', entry', hlook', heq.symm, rfl⟩))
    have hle := delivery_le (hkey ▸ h.first hmem) (hnow.trans heq) htimeline
    exact hle.lt_of_ne fun hkeys => hne (Timeline.key_inj htimeline hkeys).symm
  · exact Prod.Lex.toLex_lt_toLex.mpr (.inl (hnow ▸ hlt))

/-- No event is due when a duty has a turn. -/
theorem Begins.turn_last {sim started : Simulation M Fifo N E} {callback : Callback M E O ME}
    (h : sim.Begins started callback) (hs : sim.Sound) (hturn : callback.delivered = none)
    {p : EventToken × Routed E} (hp : p ∈ sim.timeline.pending) : sim.now < p.1.moment := by
  obtain ⟨token, routed⟩ := p
  obtain ⟨entry, hlook, rfl⟩ := Timeline.mem_pending.mp hp
  refine (hs.wf.future hlook).lt_of_ne fun hnow => ?_
  have hmem : ActionKey.delivery entry.event.target token ∈ sim.enabled :=
    mem_enabled.mpr (.inl (mem_dueDeliveries.mpr ⟨token, entry, hlook, hnow.symm, rfl⟩))
  have hle := h.first hmem
  rw [h.key, hturn, ← ActionKey.cmp_ne_gt] at hle
  exact hle rfl

/-! ### The order of admissions -/

omit [Model M E O ME] in
/-- A callback is given identities in the order of its sends. -/
theorem sends_sorted [Retained O] {start ctx : ActionContext E O}
    {log : List (ContextCall E O × ContextReply E O)} (ht : Transaction start start)
    (h : Steps ContextStep start log ctx) :
    (sends start.action log).Pairwise fun p q => p.1.id < q.1.id := by
  refine (h.invariant (I := fun log ctx => Transaction start ctx ∧
    Booked start ctx log ∧ (sends start.action log).Pairwise fun p q => p.1.id < q.1.id)
    ⟨ht, .steps ht .refl, .nil⟩ ?_).2.2
  rintro log u l v - ⟨hu, hb, hsorted⟩ hstep
  refine ⟨hu.performs hstep, hb.performs hu hstep, ?_⟩
  rw [sends_snoc]
  refine List.pairwise_append.mpr ⟨hsorted, ?_, fun p hp q hq => ?_⟩
  · cases sentBy start.action l <;> simp
  · obtain ⟨request, reply⟩ := l
    cases hstep with
    | unsent | uncancelled | cancelledOwn | cancelledOld | observed => simp [sentBy] at hq
    | @sent _ _ _ moment token _ hreq hi =>
      obtain rfl : q = _ := by simpa [sentBy, hreq] using hq
      exact (hb.fresh p hp).2 token.id hi.admits.fresh

/-! ### Runs -/

variable [Retained O] [Monitor N M O NE]

/-- What was delivered, in order, and all of it before what is pending or still to be issued. -/
structure FifoOrdered (tr : List (Recorded M Fifo N E O ME Empty NE))
    (sim : Simulation M Fifo N E) : Prop where
  sound : sim.Sound
  ordered : (allHandled tr).Pairwise fun d d' => d.token.key < d'.token.key
  past : ∀ d ∈ allHandled tr, d.token.moment ≤ sim.now ∧ sim.timeline.Issued d.token.id
  ahead : ∀ d ∈ allHandled tr, ∀ p ∈ sim.timeline.pending, d.token.key < p.1.key

omit [Retained O] [Monitor N M O NE] [Retained E] in
/-- A call hands over one event at most. -/
theorem handled_cases [Scheduler S SE] (sim : Simulation M S N E) (reply : Reply E O ME NE SE) :
    sim.handled reply = [] ∨ ∃ started callback token routed,
      sim.attempt = some (started, callback) ∧ callback.delivered = some (token, routed) ∧
      sim.handled reply = [⟨callback.metadata, token, routed⟩] := by
  cases reply with
  | injected => exact .inl rfl
  | stepped r =>
    rw [handled, handling]
    cases hattempt : sim.attempt with
    | none => exact .inl rfl
    | some attempt =>
      obtain ⟨started, callback⟩ := attempt
      cases hdelivered : callback.delivered with
      | none => exact .inl (by simp only [hdelivered])
      | some d =>
        exact .inr ⟨started, callback, d.1, d.2, rfl, hdelivered, by simp only [hdelivered]⟩

omit [Retained E] in
/-- What was issued is before what was not, unless it is for a later moment. -/
theorem key_lt_of_issued {t : Timeline (Routed E)} {token token' : EventToken}
    (hmoment : token.moment ≤ token'.moment) (h : t.Issued token.id) (h' : ¬ t.Issued token'.id) :
    token.key < token'.key := by
  refine Prod.Lex.toLex_lt_toLex.mpr (hmoment.lt_or_eq.imp_right fun heq => ⟨heq, ?_⟩)
  simp only [Timeline.Issued, not_forall] at h'
  obtain ⟨next, hnext, hnot⟩ := h'
  exact (h next hnext).trans_le (not_lt.mp hnot)

/-- **The step lemma**: every call keeps the order. -/
theorem FifoOrdered.next {tr : List (Recorded M Fifo N E O ME Empty NE)}
    {sim sim' : Simulation M Fifo N E} {call : Call E} {reply : Reply E O ME NE Empty}
    (h : FifoOrdered tr sim) (hexec : sim.exec call = .ok (sim', reply)) :
    FifoOrdered (tr ++ [(sim, call, reply)]) sim' := by
  have he := executes_of_exec h.sound hexec
  have hs' := he.sound h.sound
  have hb := he.balances h.sound
  have hnow := exec_now he
  have hall : allHandled (tr ++ [(sim, call, reply)]) = allHandled tr ++ sim.handled reply := by
    simp [allHandled]
  have hissued : ∀ d ∈ sim.handled reply, sim.timeline.Issued d.token.id := by
    intro d hd
    obtain ⟨entry, hentry, -⟩ := Timeline.mem_pending.mp (hb.source d hd)
    exact h.sound.wf.issued hentry
  -- what this call hands over is the first of what is pending
  have hfirst : ∀ d ∈ sim.handled reply, d.token.moment = sim.now ∧
      ∀ p ∈ sim.timeline.pending, p.1 ≠ d.token → d.token.key < p.1.key := by
    intro d hd
    rcases sim.handled_cases reply with
      hnil | ⟨started, callback, token, routed, hattempt, hdelivered, heq⟩
    · simp [hnil] at hd
    · rw [heq] at hd
      obtain rfl := List.mem_singleton.mp hd
      have hbegins := ((attempt_iff h.sound).mp hattempt).2
      refine ⟨?_, fun p hp hne => hbegins.precedes h.sound hdelivered hp hne⟩
      rcases hbegins.handles with ⟨hnone, -⟩ | ⟨_, _, hsome, -, -, -, hmoment, -⟩
      · simp [hnone] at hdelivered
      · obtain ⟨rfl, -⟩ := Prod.mk.inj (Option.some_inj.mp (hsome.symm.trans hdelivered))
        exact hmoment.symm.trans hbegins.now.2
  refine ⟨hs', ?_, ?_, ?_⟩
  · rw [hall]
    refine List.pairwise_append.mpr ⟨h.ordered, ?_, fun d hd d' hd' => ?_⟩
    · rcases sim.handled_cases reply with hnil | ⟨_, _, _, _, -, -, heq⟩
      · rw [hnil]
        exact .nil
      · rw [heq]
        exact List.pairwise_singleton _ _
    · exact h.ahead d hd (d'.token, d'.routed) (hb.source d' hd')
  · rw [hall]
    intro d hd
    rcases List.mem_append.mp hd with hd | hd
    · exact ⟨(h.past d hd).1.trans hnow, hb.issued (h.past d hd).2⟩
    · exact ⟨(hfirst d hd).1.le.trans hnow, hb.issued (hissued d hd)⟩
  · rw [hall]
    intro d hd p hp
    have hbefore : d.token.moment ≤ sim.now ∧ sim.timeline.Issued d.token.id := by
      rcases List.mem_append.mp hd with hd | hd
      · exact h.past d hd
      · exact ⟨(hfirst d hd).1.le, hissued d hd⟩
    rcases (hb.events h.sound p).mp hp with hadmitted | ⟨hkept, hnot, -⟩
    · obtain ⟨entry, hentry, -⟩ := Timeline.mem_pending.mp hp
      have hfuture : sim.now ≤ p.1.moment := hnow.trans (hs'.wf.future hentry)
      exact key_lt_of_issued (hbefore.1.trans hfuture) hbefore.2 (hb.fresh p hadmitted).1
    · rcases List.mem_append.mp hd with hd | hd
      · exact h.ahead d hd p hkept
      · exact (hfirst d hd).2 p hkept fun heq => hnot (heq ▸ List.mem_map_of_mem hd)

/-- A call admits its events in the order of their identities. -/
theorem Executes.admits_sorted [Scheduler S SE] [Monitor N' M O NE] {sim sim' : Simulation M S N' E}
    {call : Call E} {reply : Reply E O ME NE SE} (h : sim.Executes call reply sim')
    (hs : sim.Sound) : (sim.admitted call reply).Pairwise fun p q => p.1.id < q.1.id := by
  cases h with
  | injected hcall hi =>
    cases hi with
    | rejected => exact .nil
    | admitted =>
      rw [admitted, hcall]
      exact List.pairwise_singleton _ _
  | stepped ht =>
    rw [admitted]
    rcases ht.events hs with ⟨hattempt, -⟩ | ⟨_, _, -, hlog, -⟩ |
      ⟨started, callback, ctx, log, model, turn, hattempt, hlog, hruns, -⟩
    · have hlog : sim.committedLog = none := by simp only [committedLog, hattempt]
      simp only [hlog, List.Pairwise.nil]
    · simp only [hlog, List.Pairwise.nil]
    · have hstart := ((attempt_iff hs).mp hattempt).2.sound hs
      have hsorted := sends_sorted (.begin hstart.wf hstart.measure rfl rfl rfl) hruns.steps
      simp only [hlog]
      exact hsorted.filter _

/-- Over a run, events are admitted in the order of their identities. -/
theorem run_admits_sorted [Scheduler S SE] [Monitor N' M O NE] {sim : Simulation M S N' E}
    {tr : List (Recorded M S N' E O ME SE NE)}
    (h : (system M S N' E O ME SE NE).recording.Run tr sim) :
    (allAdmitted tr).Pairwise fun p q => p.1.id < q.1.id := by
  refine h.invariant (I := fun tr _ => (allAdmitted tr).Pairwise fun p q => p.1.id < q.1.id)
    (fun _ => .nil) ?_
  rintro tr sim ⟨sim₁, call, reply⟩ sim' hrun ih ⟨hl, hexec⟩
  obtain rfl : sim = sim₁ := hl.symm
  have hs := reachable_sound hrun.ofRecording.reachable
  have he := executes_of_exec hs hexec
  have hall : allAdmitted (tr ++ [(sim, call, reply)])
      = allAdmitted tr ++ sim.admitted call reply := by simp [allAdmitted]
  rw [hall]
  refine List.pairwise_append.mpr ⟨ih, he.admits_sorted hs, fun p hp q hq => ?_⟩
  -- what is admitted now was not issued before
  obtain ⟨next, hnext, hnot⟩ : ∃ next, sim.timeline.nextId = some next ∧ ¬ q.1.id < next := by
    simpa [Timeline.Issued] using ((he.balances hs).fresh q hq).1
  exact ((run_ledger hrun).issued p hp next hnext).trans_le (not_lt.mp hnot)

/-- **FIFO delivers in order**: in every run under FIFO scheduling the events are delivered by
moment, and those of one moment in the order in which the run admitted them, whoever admitted
them and whomever they are for; what is still pending comes after all of them.  A duty has a
turn only while no event is due. -/
theorem fifo_order {sim : Simulation M Fifo N E} {tr : List (Recorded M Fifo N E O ME Empty NE)}
    (h : (system M Fifo N E O ME Empty NE).recording.Run tr sim) :
    (allAdmitted tr).Pairwise (fun p q => p.1.id < q.1.id) ∧
    (∀ d ∈ allHandled tr, (d.token, d.routed) ∈ allAdmitted tr) ∧
    (allHandled tr).Pairwise (fun d d' => d.token.moment < d'.token.moment ∨
      d.token.moment = d'.token.moment ∧ d.token.id < d'.token.id) ∧
    (∀ d ∈ allHandled tr, ∀ p ∈ sim.timeline.pending, d.token.moment < p.1.moment ∨
      d.token.moment = p.1.moment ∧ d.token.id < p.1.id) ∧
    ∀ l ∈ tr, ∀ started callback, l.1.attempt = some (started, callback) →
      callback.delivered = none → ∀ p ∈ l.1.timeline.pending, l.1.now < p.1.moment := by
  have hordered : FifoOrdered tr sim := by
    refine h.invariant (I := FifoOrdered) (fun hinit => ?_) ?_
    · obtain ⟨_, _, _, _, _, _, _, hbuild⟩ := hinit
      exact ⟨withParts_sound hbuild, .nil, by simp [allHandled], by simp [allHandled]⟩
    · rintro tr sim ⟨_, call, reply⟩ sim' - hordered ⟨rfl, hexec⟩
      exact hordered.next hexec
  refine ⟨run_admits_sorted h, (run_ledger h).handled, ?_, fun d hd p hp => ?_, ?_⟩
  · exact hordered.ordered.imp Prod.Lex.toLex_lt_toLex.mp
  · exact Prod.Lex.toLex_lt_toLex.mp (hordered.ahead d hd p hp)
  · intro l hl started callback hattempt hturn p hp
    have hs := reachable_sound (h.recorded l hl).1
    exact ((attempt_iff hs).mp hattempt).2.turn_last hs hturn hp

/-- An event for moment 5 is overtaken by one that is due at once. -/
theorem fifo_order_overtaken :
    let calls := [.injectAfter 1 5 (), .inject 1 (), .step, .step, .step]
    let tr : List (Recorded (Playback Unit Unit Empty) Fifo NoopMonitor Unit Unit Empty Empty
        Empty) :=
      (Playback.world [.done (.ok ⟨1, .wake⟩), .done (.ok ⟨1, .wake⟩)] ⟨⟩ ⟨⟩).history calls
    (allHandled tr).map (fun d => d.token.id) = [1, 0] ∧
      (allHandled tr).Pairwise (fun d d' => d.token.moment < d'.token.moment ∨
        d.token.moment = d'.token.moment ∧ d.token.id < d'.token.id) :=
  ⟨by decide +kernel, (fifo_order (Playback.recorded_world
    [.done (.ok ⟨1, .wake⟩), .done (.ok ⟨1, .wake⟩)] _ _ _)).2.2.1⟩

end Simulation

end Calandria
