/-
Exactly-once delivery.

The ledger of a run lists, for every call, the events it admitted (injections,
and the sends that a committed action did not itself cancel), the event handed
to a callback, and the earlier events a committed action cancelled.  All three
are read off the state the call leaves and its reply.

The books balance in every step (`Transition.balances`): what was pending and
what was admitted is what is pending, handled or cancelled.  Since no token is
issued twice, every admitted token is in exactly one of the three places ever
after (`exactly_once`).
-/
import Calandria.VirtualTime
import Mathlib.Algebra.Order.Group.Multiset

namespace Calandria

/-! ### The events of one callback -/

section

variable {E O : Type}

/-- The event a context call sent. -/
def sentBy (action : ActionId) (l : ContextCall E O × ContextReply E O) :
    Option (EventToken × Routed E) :=
  match l.2 with
  | .sent (.ok token) => l.1.sends.map fun s => (token, ⟨s.1, some action, s.2⟩)
  | .sent (.error _) => none
  | .cancelled _ => none
  | .observed _ => none

/-- The event a context call cancelled. -/
def cancelledBy (l : ContextCall E O × ContextReply E O) : Option EventToken :=
  match l with
  | (.cancel token, .cancelled (.ok ())) => some token
  | _ => none

def sends (action : ActionId) (log : List (ContextCall E O × ContextReply E O)) :
    List (EventToken × Routed E) :=
  log.filterMap (sentBy action)

def cancels (log : List (ContextCall E O × ContextReply E O)) : List EventToken :=
  log.filterMap cancelledBy

/-- A context call that cancelled an event. -/
abbrev cancellation (token : EventToken) : ContextCall E O × ContextReply E O :=
  (.cancel token, .cancelled (.ok ()))

theorem sends_snoc (action : ActionId) (log : List (ContextCall E O × ContextReply E O))
    (l : ContextCall E O × ContextReply E O) :
    sends action (log ++ [l]) = sends action log ++ (sentBy action l).toList := by
  cases h : sentBy action l <;> simp [sends, h]

theorem cancels_snoc (log : List (ContextCall E O × ContextReply E O))
    (l : ContextCall E O × ContextReply E O) :
    cancels (log ++ [l]) = cancels log ++ (cancelledBy l).toList := by
  cases h : cancelledBy l <;> simp [cancels, h]

theorem sends_cancellation (action : ActionId)
    (log : List (ContextCall E O × ContextReply E O)) (token : EventToken) :
    sends action (log ++ [cancellation token]) = sends action log := by
  rw [sends_snoc, sentBy, Option.toList_none, List.append_nil]

theorem cancels_cancellation (log : List (ContextCall E O × ContextReply E O))
    (token : EventToken) : cancels (log ++ [cancellation token]) = cancels log ++ [token] :=
  cancels_snoc log _

/-- A call that reports a send cancels nothing. -/
theorem cancelledBy_sent (request : ContextCall E O) (token : EventToken) :
    cancelledBy (request, (.sent (.ok token) : ContextReply E O)) = none := by
  cases request <;> rfl

/-- The tokens of the pending events. -/
def tokens {α : Type} (t : Timeline α) : Multiset EventToken := t.pending.map Prod.fst

/-- The books of a callback that came from `start` to `ctx`. -/
structure Booked (start ctx : ActionContext E O)
    (log : List (ContextCall E O × ContextReply E O)) : Prop where
  balance : tokens start.timeline + (sends start.action log).map Prod.fst
    = tokens ctx.timeline + cancels log
  fresh : ∀ s ∈ sends start.action log, ¬ start.timeline.Issued s.1.id ∧
    ctx.timeline.Issued s.1.id
  nodup : ((sends start.action log).map Prod.fst).Nodup
  data : ∀ p ∈ ctx.timeline.pending, p ∈ start.timeline.pending ∨ p ∈ sends start.action log

theorem tokens_admits {α : Type} {t t' : Timeline α} {moment : Moment} {event : α}
    {token : EventToken} (h : t.Admits moment event token t') (hwf : t.WF) :
    tokens t' = token ::ₘ tokens t :=
  Multiset.coe_eq_coe.mpr ((h.pending_perm hwf).map Prod.fst)

theorem tokens_removes {α : Type} {t t' : Timeline α} {token : EventToken} {entry : Entry α}
    (h : t.Removes token entry t') : tokens t = token ::ₘ tokens t' :=
  Multiset.coe_eq_coe.mpr (h.pending_perm.map Prod.fst)

theorem Booked.removes {start ctx ctx' : ActionContext E O} {token : EventToken}
    {entry : Entry (Routed E)} {log : List (ContextCall E O × ContextReply E O)}
    (h : Booked start ctx log) (hr : ctx.timeline.Removes token entry ctx'.timeline) :
    Booked start ctx' (log ++ [cancellation token]) := by
  have hsends := sends_cancellation start.action log token
  have hcancels := cancels_cancellation log token
  refine ⟨?_, ?_, ?_, ?_⟩
  · rw [hsends, hcancels, h.balance, tokens_removes hr, ← Multiset.coe_add,
      Multiset.coe_singleton, ← Multiset.singleton_add]
    ac_rfl
  · rw [hsends]
    exact fun s hmem => ⟨(h.fresh s hmem).1, hr.issued.mpr (h.fresh s hmem).2⟩
  · rw [hsends]
    exact h.nodup
  · rw [hsends]
    exact fun p hmem => h.data p (hr.pending_perm.mem_iff.mpr (List.mem_cons_of_mem _ hmem))

variable [Retained E]

theorem Booked.performs {start ctx ctx' : ActionContext E O}
    {log : List (ContextCall E O × ContextReply E O)}
    {l : ContextCall E O × ContextReply E O} (h : Booked start ctx log)
    (ht : Transaction start ctx) (hp : ContextStep ctx l ctx') :
    Booked start ctx' (log ++ [l]) := by
  -- a call that neither sends nor cancels leaves the books alone
  have hidle : ∀ {l : ContextCall E O × ContextReply E O}, sentBy start.action l = none →
      cancelledBy l = none → ctx'.timeline = ctx.timeline → Booked start ctx' (log ++ [l]) := by
    intro l hsent hcancelled htimeline
    have hsends : sends start.action (log ++ [l]) = sends start.action log := by
      rw [sends_snoc, hsent, Option.toList_none, List.append_nil]
    have hcancels : cancels (log ++ [l]) = cancels log := by
      rw [cancels_snoc, hcancelled, Option.toList_none, List.append_nil]
    exact ⟨by rw [hsends, hcancels, htimeline, h.balance], by rw [hsends, htimeline]; exact h.fresh,
      by rw [hsends]; exact h.nodup, by rw [hsends, htimeline]; exact h.data⟩
  obtain ⟨request, reply⟩ := l
  cases hp with
  | unsent => exact hidle rfl (by cases request <;> rfl) rfl
  | @sent _ target event moment token _ hreq hi =>
    have haction : ctx.action = start.action := ht.frame.action
    have hsends : sends start.action (log ++ [(request, .sent (.ok token))])
        = sends start.action log ++ [(token, ⟨target, some start.action, event⟩)] := by
      rw [sends_snoc, sentBy, hreq]
      rfl
    have hcancels : cancels (log ++ [(request, .sent (.ok token))]) = cancels log := by
      rw [cancels_snoc, cancelledBy_sent, Option.toList_none, List.append_nil]
    -- the token is minted here, so it is among no earlier sends
    refine ⟨?_, ?_, ?_, ?_⟩
    · rw [hsends, hcancels, List.map_append, List.map_singleton, ← Multiset.coe_add,
        Multiset.coe_singleton, ← add_assoc, h.balance, tokens_admits hi.admits ht.wf,
        ← Multiset.singleton_add]
      ac_rfl
    · rw [hsends]
      intro s hmem
      rcases List.mem_append.mp hmem with hmem | hmem
      · exact ⟨(h.fresh s hmem).1, hi.admits.issued (.inl (h.fresh s hmem).2)⟩
      · obtain rfl := List.mem_singleton.mp hmem
        exact ⟨fun hs => hi.admits.not_issued (ht.issued hs), hi.admits.issued (.inr rfl)⟩
    · rw [hsends, List.map_append, List.map_singleton]
      refine List.nodup_append.mpr ⟨h.nodup, by simp, ?_⟩
      rintro a ha b hb rfl
      obtain rfl := List.mem_singleton.mp hb
      obtain ⟨s, hmem, heq⟩ := List.mem_map.mp ha
      exact hi.admits.not_issued (heq ▸ (h.fresh s hmem).2)
    · rw [hsends]
      intro p hmem
      rcases List.mem_cons.mp ((hi.admits.pending_perm ht.wf).mem_iff.mp hmem) with rfl | hmem
      · exact .inr (List.mem_append_right _ (by simp [haction]))
      · exact (h.data p hmem).imp_right (List.mem_append_left _)
  | uncancelled => exact hidle rfl rfl rfl
  | cancelledOwn hc => exact h.removes hc.removes
  | cancelledOld hc => exact h.removes hc.removes
  | observed => exact hidle rfl rfl rfl

/-- **The run lemma** of the books of a callback. -/
theorem Booked.steps {start ctx : ActionContext E O}
    {log : List (ContextCall E O × ContextReply E O)} (ht : Transaction start start)
    (h : Steps ContextStep start log ctx) : Booked start ctx log := by
  refine (h.invariant (I := fun log ctx => Transaction start ctx ∧ Booked start ctx log)
    ⟨ht, ?_⟩ ?_).2
  · exact ⟨by simp [sends, cancels], by simp [sends], by simp [sends], fun p hp => .inl hp⟩
  · rintro log u l v _ ⟨hu, hb⟩ hstep
    exact ⟨hu.performs hstep, hb.performs hu hstep⟩

omit [Retained E] in
/-- Nothing is listed twice among what was pending and what was sent. -/
theorem booked_nodup {start ctx : ActionContext E O}
    {log : List (ContextCall E O × ContextReply E O)} (h : Booked start ctx log)
    (hwf : start.timeline.WF) :
    (tokens start.timeline + (sends start.action log).map Prod.fst).Nodup := by
  refine Multiset.nodup_add.mpr ⟨Timeline.pending_nodup _, h.nodup, ?_⟩
  refine Multiset.disjoint_left.mpr fun hmem hsent => ?_
  obtain ⟨⟨_, routed⟩, hp, rfl⟩ := List.mem_map.mp (Multiset.mem_coe.mp hmem)
  obtain ⟨s, hs, heq⟩ := List.mem_map.mp (Multiset.mem_coe.mp hsent)
  obtain ⟨entry, hentry, -⟩ := Timeline.mem_pending.mp hp
  exact (h.fresh s hs).1 (heq ▸ hwf.issued hentry)

/-- The propositional part of `Booked.net`. -/
theorem exchange {a s c x : Prop} (hiff : a ∨ s ↔ c ∨ x) (hold : a → ¬ s) (hgone : c → ¬ x) :
    a ∨ s ∧ ¬ x ↔ c ∨ x ∧ ¬ s := by
  tauto

omit [Retained E] in
/-- What a callback kept of its sends, and what it cancelled besides. -/
theorem Booked.net {start ctx : ActionContext E O}
    {log : List (ContextCall E O × ContextReply E O)} (h : Booked start ctx log)
    (hwf : start.timeline.WF) :
    tokens start.timeline
        + ((sends start.action log).filter fun s => s.1 ∉ cancels log).map Prod.fst
      = tokens ctx.timeline
        + (cancels log).filter fun token => token ∉ (sends start.action log).map Prod.fst := by
  have hall := booked_nodup h hwf
  have hstarts := Multiset.nodup_add.mp hall
  have hends := Multiset.nodup_add.mp (h.balance ▸ hall)
  have hkept : ((sends start.action log).filter fun s => s.1 ∉ cancels log).map Prod.fst
      = ((sends start.action log).map Prod.fst).filter fun token => token ∉ cancels log := by
    rw [List.filter_map]
    rfl
  rw [hkept]
  -- both sides list, without repetition, the same tokens
  refine (Multiset.Nodup.ext ?_ ?_).mpr fun token => ?_
  · refine Multiset.nodup_add.mpr ⟨hstarts.1, h.nodup.filter _, ?_⟩
    exact Multiset.disjoint_left.mpr fun hmem hs => Multiset.disjoint_left.mp hstarts.2.2 hmem
      (Multiset.mem_coe.mpr (List.mem_of_mem_filter (Multiset.mem_coe.mp hs)))
  · refine Multiset.nodup_add.mpr ⟨hends.1, (Multiset.coe_nodup.mp hends.2.1).filter _, ?_⟩
    exact Multiset.disjoint_left.mpr fun hmem hs => Multiset.disjoint_left.mp hends.2.2 hmem
      (Multiset.mem_coe.mpr (List.mem_of_mem_filter (Multiset.mem_coe.mp hs)))
  · have hiff : token ∈ tokens start.timeline ∨ token ∈ (sends start.action log).map Prod.fst ↔
        token ∈ tokens ctx.timeline ∨ token ∈ cancels log := by
      have := congrArg (token ∈ ·) h.balance
      simpa only [Multiset.mem_add, Multiset.mem_coe, eq_iff_iff] using this
    have hold : token ∈ tokens start.timeline → token ∉ (sends start.action log).map Prod.fst :=
      fun hmem hs => Multiset.disjoint_left.mp hstarts.2.2 hmem (Multiset.mem_coe.mpr hs)
    have hgone : token ∈ tokens ctx.timeline → token ∉ cancels log :=
      fun hmem hs => Multiset.disjoint_left.mp hends.2.2 hmem (Multiset.mem_coe.mpr hs)
    simp only [Multiset.mem_add, Multiset.mem_coe, List.mem_filter, decide_eq_true_eq]
    exact exchange hiff hold hgone

end

namespace Simulation

/-! ### The books of one call -/

/-- An event handed to a callback. -/
structure Handling (E : Type) where
  metadata : ActionMeta
  token : EventToken
  routed : Routed E

section

variable {M S N E O ME SE NE : Type} [Model M E O ME] [Scheduler S SE]

/-- The event that the next step hands to its callback. -/
def handling (sim : Simulation M S N E) : List (Handling E) :=
  match sim.attempt with
  | none => []
  | some (_, callback) =>
    match callback.delivered with
    | none => []
    | some (token, routed) => [⟨callback.metadata, token, routed⟩]

variable [Retained E] [Retained O]

/-- The context calls of the callback that the next step runs, if it commits. -/
def committedLog (sim : Simulation M S N E) :
    Option (ActionId × List (ContextCall E O × ContextReply E O)) :=
  match sim.attempt with
  | none => none
  | some (started, callback) =>
    match callback.program.run (started.context callback.metadata) with
    | .ok (context, log, _, .ok turn) =>
      if turn.next = .stop ∧ context.pendingFor callback.metadata.key.duty ≠ 0 then none
      else some (callback.metadata.id, log)
    | _ => none

/-- The events a call admitted: an injection, or the sends that a committed
action did not itself cancel. -/
def admitted (sim : Simulation M S N E) (call : Call E) :
    Reply E O ME NE SE → List (EventToken × Routed E)
  | .injected (.ok token) => (call.injects.map fun i => (token, ⟨i.1, none, i.2⟩)).toList
  | .injected (.error _) => []
  | .stepped _ =>
    match sim.committedLog with
    | none => []
    | some (action, log) => (sends action log).filter fun s => s.1 ∉ cancels log

/-- The event a call handed to a callback, committed or not. -/
def handled (sim : Simulation M S N E) : Reply E O ME NE SE → List (Handling E)
  | .injected _ => []
  | .stepped _ => sim.handling

/-- The earlier events that a committed action cancelled. -/
def cancelled (sim : Simulation M S N E) : Reply E O ME NE SE → List EventToken
  | .injected _ => []
  | .stepped _ =>
    match sim.committedLog with
    | none => []
    | some (action, log) =>
      (cancels log).filter fun token => token ∉ (sends action log).map Prod.fst

end

variable {M S N E O ME SE NE : Type} [Retained E] [Retained O] [Model M E O ME]
  [Scheduler S SE] [Monitor N M O NE]

omit [Retained E] [Retained O] [Monitor N M O NE] in
/-- What a begun action is handed. -/
theorem Begins.handles {sim started : Simulation M S N E} {callback : Callback M E O ME}
    (h : sim.Begins started callback) :
    (callback.delivered = none ∧ started.timeline = sim.timeline) ∨
    ∃ token entry, callback.delivered = some (token, entry.event) ∧
      sim.timeline.Removes token entry started.timeline ∧
      callback.metadata.key = .delivery entry.event.target token ∧
      callback.metadata.cause = entry.event.cause ∧ callback.metadata.moment = token.moment ∧
      callback.program = Model.deliver started.model entry.event.target ⟨token, entry.event.event⟩
        token.moment callback.metadata.id := by
  obtain ⟨key, selected, hsel, hstarts⟩ := h
  have htimeline : selected.timeline = sim.timeline := by rw [hsel.result]
  cases hstarts with
  | turn => exact .inl ⟨rfl, htimeline⟩
  | @delivery token entry timeline hr hmoment =>
    rw [htimeline] at hr
    exact .inr ⟨token, entry, rfl, hr, rfl, rfl, hmoment.symm, by rw [hmoment]⟩

/-- What a transition does to the events: nothing, a rollback, or a commit. -/
theorem Transition.events {sim sim' : Simulation M S N E} {r : StepReturn O ME NE SE}
    (h : sim.Transition r sim') (hs : sim.Sound) :
    (sim.attempt = none ∧ sim'.timeline.pending = sim.timeline.pending ∧
      sim'.timeline.nextId = sim.timeline.nextId) ∨
    (∃ started callback, sim.attempt = some (started, callback) ∧ sim.committedLog = none ∧
      started.timeline.RolledBack sim'.timeline) ∨
    ∃ started callback ctx log model turn, sim.attempt = some (started, callback) ∧
      sim.committedLog = some (callback.metadata.id, log) ∧
      Runs started callback ctx log model (.ok turn) ∧ sim'.timeline = ctx.timeline := by
  rcases h.attempted hs with ⟨hnone, hpending, hnext, -, -⟩ |
    ⟨started, callback, ctx, log, model, result, timeline, hattempt, hruns, ha, hr, hsim'⟩ |
    ⟨started, callback, ctx, log, model, turn, updated, hattempt, hruns, hc, hf⟩
  · exact .inl ⟨hnone, hpending, hnext⟩
  · refine .inr (.inl ⟨started, callback, hattempt, ?_, ?_⟩)
    · simp only [committedLog, hattempt, hruns.run]
      cases ha with
      | unwound => rfl
      | failed => rfl
      | stopRejected hstop hpending => exact if_pos ⟨hstop, hpending⟩
    · have htimeline : sim'.timeline = timeline := by
        rw [hsim']
        cases r <;> rfl
      exact htimeline ▸ hr
  · refine .inr (.inr ⟨started, callback, ctx, log, model, turn, hattempt, ?_, hruns, ?_⟩)
    · simp only [committedLog, hattempt, hruns.run]
      exact if_neg fun hn => hn.2 (hc.unneeded hn.1)
    · rw [hf.frame, hc.frame]

/-- The books of one call balance. -/
structure Balanced (sim : Simulation M S N E) (call : Call E) (reply : Reply E O ME NE SE)
    (sim' : Simulation M S N E) : Prop where
  balance : tokens sim.timeline + (sim.admitted call reply).map Prod.fst
    = tokens sim'.timeline + (sim.handled reply).map Handling.token + sim.cancelled reply
  fresh : ∀ p ∈ sim.admitted call reply, ¬ sim.timeline.Issued p.1.id ∧
    sim'.timeline.Issued p.1.id
  nodup : ((sim.admitted call reply).map Prod.fst).Nodup
  issued : ∀ {id}, sim.timeline.Issued id → sim'.timeline.Issued id
  data : ∀ p ∈ sim'.timeline.pending, p ∈ sim.timeline.pending ∨ p ∈ sim.admitted call reply
  source : ∀ d ∈ sim.handled reply, (d.token, d.routed) ∈ sim.timeline.pending

omit [Retained O] [Monitor N M O NE] in
/-- What is handed to the callback was pending, and everything else still is. -/
theorem handling_balance {sim started : Simulation M S N E} {callback : Callback M E O ME}
    (hs : sim.Sound) (hattempt : sim.attempt = some (started, callback)) :
    tokens sim.timeline = tokens started.timeline + sim.handling.map Handling.token ∧
    (∀ {id}, sim.timeline.Issued id ↔ started.timeline.Issued id) ∧
    (∀ p ∈ started.timeline.pending, p ∈ sim.timeline.pending) ∧
    ∀ d ∈ sim.handling, (d.token, d.routed) ∈ sim.timeline.pending := by
  obtain ⟨_, hb⟩ := (attempt_iff hs).mp hattempt
  rcases hb.handles with ⟨hdelivered, hsame⟩ | ⟨token, entry, hdelivered, hr, _⟩
  · simp [handling, hattempt, hdelivered, hsame]
  · have hhandling : sim.handling = [⟨callback.metadata, token, entry.event⟩] := by
      simp only [handling, hattempt, hdelivered]
    rw [hhandling]
    refine ⟨?_, fun {id} => hr.issued.symm, fun p hmem => ?_, fun d hd => ?_⟩
    · rw [tokens_removes hr, List.map_singleton, Multiset.coe_singleton, ← Multiset.singleton_add,
        add_comm]
    · exact hr.pending_perm.mem_iff.mpr (List.mem_cons_of_mem _ hmem)
    · obtain rfl := List.mem_singleton.mp hd
      exact hr.pending_perm.mem_iff.mpr List.mem_cons_self

/-- **The step lemma**: the books of a step balance. -/
theorem Transition.balances {sim sim' : Simulation M S N E} {r : StepReturn O ME NE SE}
    (h : sim.Transition r sim') (hs : sim.Sound) :
    Balanced sim .step (.stepped r : Reply E O ME NE SE) sim' := by
  rcases h.events hs with ⟨hattempt, hpending, hnext⟩ |
    ⟨started, callback, hattempt, hlog, hrolled⟩ |
    ⟨started, callback, ctx, log, model, turn, hattempt, hlog, hruns, htimeline⟩
  · have hlog : sim.committedLog = none := by simp only [committedLog, hattempt]
    have hhandling : sim.handling = [] := by simp only [handling, hattempt]
    refine ⟨?_, ?_, ?_, fun {id} hid => ?_, fun p hmem => .inl (hpending ▸ hmem), ?_⟩
    · simp [admitted, handled, cancelled, hlog, hhandling, tokens, hpending]
    · simp [admitted, hlog]
    · simp [admitted, hlog]
    · rw [Timeline.Issued, hnext]
      exact hid
    · simp [handled, hhandling]
  · obtain ⟨hbalance, hissued, hsub, hsource⟩ := handling_balance hs hattempt
    have hpending : sim'.timeline.pending = started.timeline.pending := by
      rw [hrolled.result]
      rfl
    have htokens : tokens sim'.timeline = tokens started.timeline := by
      rw [tokens, hpending, tokens]
    refine ⟨?_, ?_, ?_, fun {id} hid => hrolled.issued (hissued.mp hid),
      fun p hmem => .inl (hsub p (hpending ▸ hmem)), hsource⟩
    · simp [admitted, handled, cancelled, hlog, hbalance, htokens]
    · simp [admitted, hlog]
    · simp [admitted, hlog]
  · obtain ⟨hbalance, hissued, hsub, hsource⟩ := handling_balance hs hattempt
    obtain ⟨_, hb⟩ := (attempt_iff hs).mp hattempt
    have hstart := hb.sound hs
    have hbooked : Booked (started.context callback.metadata) ctx log :=
      .steps (.begin hstart.wf hstart.measure rfl rfl rfl) hruns.steps
    have hnet := hbooked.net hstart.wf
    refine ⟨?_, fun p hmem => ?_, ?_, fun {id} hid => ?_, fun p hmem => ?_, hsource⟩
    · simp only [admitted, handled, cancelled, hlog]
      rw [hbalance, htimeline, add_right_comm]
      exact (congrArg (· + ((sim.handling.map Handling.token : List _) : Multiset _)) hnet).trans
        (add_right_comm _ _ _)
    · simp only [admitted, hlog] at hmem
      obtain ⟨hnot, hnow⟩ := hbooked.fresh p (List.mem_of_mem_filter hmem)
      exact ⟨fun hid => hnot (hissued.mp hid), htimeline ▸ hnow⟩
    · simp only [admitted, hlog]
      exact hbooked.nodup.sublist (List.filter_sublist.map _)
    · rw [htimeline]
      exact hruns.transaction.issued (hissued.mp hid)
    · rw [htimeline] at hmem
      rcases hbooked.data p hmem with hold | hnew
      · exact .inl (hsub p hold)
      · refine .inr ?_
        simp only [admitted, hlog, List.mem_filter, decide_eq_true_eq]
        refine ⟨hnew, fun hcancelled => ?_⟩
        -- a token that is pending at the end was not cancelled on the way
        have hall := hbooked.balance ▸ booked_nodup hbooked hstart.wf
        exact Multiset.disjoint_left.mp (Multiset.nodup_add.mp hall).2.2
          (Multiset.mem_coe.mpr (List.mem_map.mpr ⟨p, hmem, rfl⟩)) (Multiset.mem_coe.mpr hcancelled)

theorem Executes.balances {sim sim' : Simulation M S N E} {call : Call E}
    {reply : Reply E O ME NE SE} (h : sim.Executes call reply sim') (hs : sim.Sound) :
    Balanced sim call reply sim' := by
  cases h with
  | stepped ht => exact ht.balances hs
  | @injected _ target event result _ hcall hi =>
    cases hi with
    | rejected =>
      exact ⟨by simp [admitted, handled, cancelled], by simp [admitted], by simp [admitted],
        fun hid => hid, fun p hmem => .inl hmem, by simp [handled]⟩
    | @admitted moment token timeline _ _ _ _ _ had =>
      have hadmitted : sim.admitted call (.injected (.ok token) : Reply E O ME NE SE)
          = [(token, ⟨target, none, event⟩)] := by
        simp [Simulation.admitted, hcall]
      refine ⟨?_, fun p hmem => ?_, by simp [hadmitted], fun hid => had.issued (.inl hid),
        fun p hmem => ?_, by simp [handled]⟩
      · rw [hadmitted, tokens_admits had hs.wf]
        simp [handled, cancelled, ← Multiset.singleton_add, add_comm]
      · rw [hadmitted] at hmem
        obtain rfl := List.mem_singleton.mp hmem
        exact ⟨had.not_issued, had.issued (.inr rfl)⟩
      · rw [hadmitted]
        rcases List.mem_cons.mp ((had.pending_perm hs.wf).mem_iff.mp hmem) with rfl | hmem
        · exact .inr (List.mem_singleton_self _)
        · exact .inl hmem

/-! ### The books of a run -/

/-- One call of a recorded run. -/
abbrev Recorded (M S N E O ME SE NE : Type) : Type :=
  Simulation M S N E × Call E × Reply E O ME NE SE

def allAdmitted (tr : List (Recorded M S N E O ME SE NE)) : List (EventToken × Routed E) :=
  tr.flatMap fun l => l.1.admitted l.2.1 l.2.2

def allHandled (tr : List (Recorded M S N E O ME SE NE)) : List (Handling E) :=
  tr.flatMap fun l => l.1.handled l.2.2

def allCancelled (tr : List (Recorded M S N E O ME SE NE)) : List EventToken :=
  tr.flatMap fun l => l.1.cancelled l.2.2

/-- The ledger invariant of a recorded run. -/
structure Ledger (tr : List (Recorded M S N E O ME SE NE)) (sim : Simulation M S N E) : Prop where
  balance : (((allAdmitted tr).map Prod.fst : List EventToken) : Multiset EventToken)
    = tokens sim.timeline + (allHandled tr).map Handling.token + allCancelled tr
  issued : ∀ p ∈ allAdmitted tr, sim.timeline.Issued p.1.id
  nodup : ((allAdmitted tr).map Prod.fst).Nodup
  pending : ∀ p ∈ sim.timeline.pending, p ∈ allAdmitted tr
  handled : ∀ d ∈ allHandled tr, (d.token, d.routed) ∈ allAdmitted tr

omit [Monitor N M O NE] in
theorem Ledger.step {tr : List (Recorded M S N E O ME SE NE)} {sim sim' : Simulation M S N E}
    {call : Call E} {reply : Reply E O ME NE SE} (h : Ledger tr sim)
    (hb : Balanced sim call reply sim') : Ledger (tr ++ [(sim, call, reply)]) sim' := by
  have hadmitted : allAdmitted (tr ++ [(sim, call, reply)])
      = allAdmitted tr ++ sim.admitted call reply := by simp [allAdmitted]
  have hhandled : allHandled (tr ++ [(sim, call, reply)]) = allHandled tr ++ sim.handled reply := by
    simp [allHandled]
  have hcancelled : allCancelled (tr ++ [(sim, call, reply)])
      = allCancelled tr ++ sim.cancelled reply := by simp [allCancelled]
  refine ⟨?_, ?_, ?_, ?_, ?_⟩
  · rw [hadmitted, hhandled, hcancelled, List.map_append, List.map_append, ← Multiset.coe_add,
      ← Multiset.coe_add, ← Multiset.coe_add, h.balance]
    -- the books of the call are added to those of the run
    calc tokens sim.timeline + (allHandled tr).map Handling.token + allCancelled tr
          + (sim.admitted call reply).map Prod.fst
        = (tokens sim.timeline + (sim.admitted call reply).map Prod.fst)
          + (allHandled tr).map Handling.token + allCancelled tr := by ac_rfl
      _ = tokens sim'.timeline + (sim.handled reply).map Handling.token + sim.cancelled reply
          + (allHandled tr).map Handling.token + allCancelled tr := by rw [hb.balance]
      _ = tokens sim'.timeline + ((allHandled tr).map Handling.token
          + (sim.handled reply).map Handling.token)
          + (allCancelled tr + sim.cancelled reply) := by ac_rfl
  · rw [hadmitted]
    intro p hmem
    rcases List.mem_append.mp hmem with hmem | hmem
    · exact hb.issued (h.issued p hmem)
    · exact (hb.fresh p hmem).2
  · rw [hadmitted, List.map_append]
    refine List.nodup_append.mpr ⟨h.nodup, hb.nodup, ?_⟩
    -- new tokens were not issued before
    rintro a ha b hb' rfl
    obtain ⟨p, hp, rfl⟩ := List.mem_map.mp ha
    obtain ⟨q, hq, heq⟩ := List.mem_map.mp hb'
    exact (hb.fresh q hq).1 (heq ▸ h.issued p hp)
  · rw [hadmitted]
    intro p hmem
    rcases hb.data p hmem with hmem | hmem
    · exact List.mem_append_left _ (h.pending p hmem)
    · exact List.mem_append_right _ hmem
  · rw [hadmitted, hhandled]
    intro d hmem
    rcases List.mem_append.mp hmem with hmem | hmem
    · exact List.mem_append_left _ (h.handled d hmem)
    · exact List.mem_append_left _ (h.pending _ (hb.source d hmem))

/-- **The run lemma**: the ledger of every run balances. -/
theorem run_ledger {tr : List (Recorded M S N E O ME SE NE)} {sim : Simulation M S N E}
    (h : (system M S N E O ME SE NE).recording.Run tr sim) : Ledger tr sim := by
  refine h.invariant (I := Ledger) ?_ ?_
  · rintro sim ⟨id, now, model, topology, limits, scheduler, monitor, hbuild⟩
    have hpending : sim.timeline.pending = [] := by
      rw [withParts_eq hbuild]
      rfl
    exact ⟨by simp [allAdmitted, allHandled, allCancelled, tokens, hpending],
      by simp [allAdmitted], by simp [allAdmitted], by simp [hpending], by simp [allHandled]⟩
  · rintro tr sim ⟨_, call, reply⟩ sim' hrun hledger ⟨rfl, hexec⟩
    have hs := reachable_sound hrun.ofRecording.reachable
    exact hledger.step ((executes_of_exec hs hexec).balances hs)

omit [Retained O] [Monitor N M O NE] in
/-- What a step handles, it hands to the duty it was sent to. -/
theorem Sound.handled {sim : Simulation M S N E} (h : sim.Sound) {reply : Reply E O ME NE SE}
    {d : Handling E} (hd : d ∈ sim.handled reply) :
    d.metadata.key = .delivery d.routed.target d.token ∧
      d.metadata.cause = d.routed.cause ∧ d.metadata.moment = d.token.moment ∧
      ∃ started callback, sim.attempt = some (started, callback) ∧
        callback.metadata = d.metadata ∧
        callback.program = Model.deliver started.model d.routed.target
          ⟨d.token, d.routed.event⟩ d.token.moment d.metadata.id := by
  cases reply with
  | injected => simp [Simulation.handled] at hd
  | stepped r =>
    simp only [Simulation.handled, handling] at hd
    cases hattempt : sim.attempt with
    | none => simp [hattempt] at hd
    | some a =>
      obtain ⟨started, callback⟩ := a
      rw [hattempt] at hd
      obtain ⟨_, hb⟩ := (attempt_iff h).mp hattempt
      rcases hb.handles with ⟨hdelivered, _⟩ |
        ⟨token, entry, hdelivered, _, hkey, hcause, hmoment, hprogram⟩
      · simp [hdelivered] at hd
      · simp only [hdelivered] at hd
        obtain rfl := List.mem_singleton.mp hd
        exact ⟨hkey, hcause, hmoment, started, callback, rfl, rfl, hprogram⟩

/-- A reported action has committed its log. -/
theorem Executes.logged {sim sim' : Simulation M S N E} {call : Call E}
    {record : ActionRecord O}
    (h : sim.Executes call (.stepped (.ok (.action record)) : Reply E O ME NE SE) sim')
    (hs : sim.Sound) :
    ∃ log, sim.committedLog = some (record.metadata.id, log) := by
  cases h with
  | stepped ht =>
    obtain ⟨hlive, started, callback, ctx, log, model, updated, hb, hruns, hc, _, hrecord⟩ :=
      ht.action
    refine ⟨log, ?_⟩
    simp only [committedLog, (attempt_iff hs).mpr ⟨hlive, hb⟩, hruns.run]
    rw [hrecord]
    exact if_neg fun hn => hn.2 (hc.unneeded hn.1)

/-- **Exactly-once delivery** over every run: no token is admitted twice, and
each admitted token is pending, handled or cancelled, once and in one of the
three only; what is handled was admitted, and reaches the duty it was sent to,
with the value, the cause and the moment it was sent with; and nothing is
pending once a run completes. -/
theorem exactly_once {tr : List (Recorded M S N E O ME SE NE)} {sim : Simulation M S N E}
    (h : (system M S N E O ME SE NE).recording.Run tr sim) :
    ((allAdmitted tr).map Prod.fst).Nodup ∧
    (∀ token ∈ (allAdmitted tr).map Prod.fst,
      (sim.timeline.pending.map Prod.fst).count token
        + ((allHandled tr).map Handling.token).count token
        + (allCancelled tr).count token = 1) ∧
    (∀ token, token ∈ sim.timeline.pending.map Prod.fst ∨
      token ∈ (allHandled tr).map Handling.token ∨ token ∈ allCancelled tr →
      token ∈ (allAdmitted tr).map Prod.fst) ∧
    (∀ p ∈ sim.timeline.pending, p ∈ allAdmitted tr) ∧
    (∀ l ∈ tr, ∀ d ∈ l.1.handled l.2.2, (d.token, d.routed) ∈ allAdmitted tr ∧
      d.metadata.key = .delivery d.routed.target d.token ∧
      d.metadata.cause = d.routed.cause ∧ d.metadata.moment = d.token.moment ∧
      ∃ started callback, l.1.attempt = some (started, callback) ∧
        callback.metadata = d.metadata ∧
        callback.program = Model.deliver started.model d.routed.target
          ⟨d.token, d.routed.event⟩ d.token.moment d.metadata.id) ∧
    (∀ l ∈ tr, ∀ record, l.2.2 = .stepped (.ok (.action record)) →
      ∃ log, l.1.committedLog = some (record.metadata.id, log)) ∧
    ∀ sim' snapshot, sim.step = .ok (sim', .ok (.completed snapshot)) →
      sim'.timeline.pending = [] := by
  have hledger := run_ledger h
  have hperm : ((allAdmitted tr).map Prod.fst).Perm (sim.timeline.pending.map Prod.fst
      ++ (allHandled tr).map Handling.token ++ allCancelled tr) :=
    Multiset.coe_eq_coe.mp hledger.balance
  refine ⟨hledger.nodup, fun token hmem => ?_, fun token hmem => ?_, hledger.pending,
    fun l hl d hd => ?_, fun l hl record hreply => ?_, fun sim' snapshot hstep => ?_⟩
  -- the three lists together are a permutation of the admitted tokens
  · rw [← List.count_append, ← List.count_append, ← hperm.count_eq]
    exact List.count_eq_one_of_mem hledger.nodup hmem
  · rw [hperm.mem_iff, List.mem_append, List.mem_append]
    tauto
  · obtain ⟨hreach, _⟩ := h.recorded l hl
    exact ⟨hledger.handled d (List.mem_flatMap.mpr ⟨l, hl, hd⟩), (reachable_sound hreach).handled hd⟩
  · obtain ⟨hreach, sim', hexec⟩ := h.recorded l hl
    have hs := reachable_sound hreach
    have he := executes_of_exec hs hexec
    rw [hreply] at he
    exact he.logged hs
  · have hs := reachable_sound h.ofRecording.reachable
    obtain ⟨sim₁, r, hrun, ht⟩ := step_cases hs
    obtain ⟨rfl, rfl⟩ := Prod.mk.inj (Except.ok.inj (hstep.symm.trans hrun))
    obtain ⟨_, _, hnil, _, hsim'⟩ := ht.completes
    rw [hsim']
    exact hnil

/-- A callback that sends one event and cancels an earlier one. -/
def tradingCallback : Program Unit Unit (Returned Turn Empty) :=
  .call (.sendAfter 1 3 ()) fun _ => .call (.cancel ⟨7, 1, 5⟩) fun _ => .done (.ok ⟨1, .wake⟩)

/-- Two injections, and the delivery of the first to the trading callback. -/
def tradingCalls : List (Call Unit) := [.inject 1 (), .injectAfter 1 5 (), .step]

theorem exactly_once_trading :
    let world : Simulation (Playback Unit Unit Empty) Fifo NoopMonitor Unit :=
      Playback.world [tradingCallback] ⟨⟩ ⟨⟩
    (allAdmitted (world.history tradingCalls)).length = 3 ∧
      ∀ token ∈ (allAdmitted (world.history tradingCalls)).map Prod.fst,
        ((world.after tradingCalls).timeline.pending.map Prod.fst).count token
          + ((allHandled (world.history tradingCalls)).map Handling.token).count token
          + (allCancelled (world.history tradingCalls)).count token = 1 :=
  ⟨by decide +kernel,
    (exactly_once (Playback.recorded_world [tradingCallback] _ _ tradingCalls)).2.1⟩

end Simulation

end Calandria
