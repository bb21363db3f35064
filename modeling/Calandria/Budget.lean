/-
The budgets of an action.

`Books` (`Transaction.lean`) lists what one context call does: it is rejected with
the first check it violates (`ContextCall.rejection`), or spends one effect within
the limits.  Over a whole callback the counters are functions of its log:

* `insertedBytes`, `displacedBytes` — the two parts of the effect bytes: what the
  action sent and did not cancel, and the earlier events it cancelled;
* `Budgeted` — the counters are what the log says, and within the limits;
* `action_budgets` — for every action, after every sequence of context calls.
-/
import Calandria.Finality
import Calandria.Ledger

namespace Calandria

variable {E O : Type}

/-! ### What a log says -/

/-- The observation a context call emitted. -/
def observedBy (l : ContextCall E O × ContextReply E O) : Option O :=
  match l with
  | (.observe observation, .observed (.ok ())) => some observation
  | _ => none

/-- A context call that emitted an observation. -/
abbrev emission (observation : O) : ContextCall E O × ContextReply E O :=
  (.observe observation, .observed (.ok ()))

def observations (log : List (ContextCall E O × ContextReply E O)) : List O :=
  log.filterMap observedBy

theorem observations_snoc (log : List (ContextCall E O × ContextReply E O))
    (l : ContextCall E O × ContextReply E O) :
    observations (log ++ [l]) = observations log ++ (observedBy l).toList := by
  cases h : observedBy l <;> simp [observations, h]

/-- The sends and cancellations that succeeded. -/
def effectCount (action : ActionId) (log : List (ContextCall E O × ContextReply E O)) : ℕ :=
  (sends action log).length + (cancels log).length

section

variable [Retained E]

/-- The bytes of the events that were sent and not cancelled. -/
def insertedBytes (action : ActionId) (log : List (ContextCall E O × ContextReply E O)) : ℕ :=
  (((sends action log).filter fun s => s.1 ∉ cancels log).map
    fun s => (Retained.retainedBytes s.2).val).sum

/-- The bytes of the events that were cancelled and had been pending at `start`. -/
def displacedBytes (start : Timeline (Routed E))
    (log : List (ContextCall E O × ContextReply E O)) : ℕ :=
  (((cancels log).filterMap start.lookup).map
    fun entry => (Retained.retainedBytes entry.event).val).sum

end

/-- The bytes of the observations. -/
def observedBytes [Retained O] (log : List (ContextCall E O × ContextReply E O)) : ℕ :=
  ((observations log).map fun observation => (Retained.retainedBytes observation).val).sum

/-- Whether a reply is a success. -/
def ContextReply.accepted : ContextReply E O → Bool
  | .sent (.ok _) | .cancelled (.ok _) | .observed (.ok _) => true
  | .sent (.error _) | .cancelled (.error _) | .observed (.error _) => false

/-- A weighted sum over the entries of unlisted keys, once one more is listed. -/
theorem sum_unlisted {α β : Type} [DecidableEq α] (w : β → ℕ) {entries : List (α × β)}
    (hnodup : (entries.map Prod.fst).Nodup) {listed : List α} {a : α} {b : β}
    (hmem : (a, b) ∈ entries) (ha : a ∉ listed) :
    ((entries.filter fun e => e.1 ∉ listed).map fun e => w e.2).sum
      = w b + ((entries.filter fun e => e.1 ∉ listed ++ [a]).map fun e => w e.2).sum := by
  obtain ⟨before, after, rfl⟩ := List.append_of_mem hmem
  have hother : ∀ part : List (α × β), (∀ e ∈ part, e.1 ≠ a) →
      (part.filter fun e => e.1 ∉ listed ++ [a]) = part.filter fun e => e.1 ∉ listed := by
    intro part hpart
    refine List.filter_congr fun e he => ?_
    simp [hpart e he]
  rw [List.map_append, List.map_cons, List.nodup_append, List.nodup_cons] at hnodup
  obtain ⟨-, ⟨hafter, -⟩, hbefore⟩ := hnodup
  have hkept : (a, b).1 ∉ listed := ha
  rw [List.filter_append, List.filter_append, List.filter_cons_of_pos (by simpa using hkept),
    List.filter_cons_of_neg (by simp), hother before, hother after]
  · simp only [List.map_append, List.map_cons, List.sum_append, List.sum_cons]
    omega
  · intro e he heq
    have hkey : e.1 ∈ after.map Prod.fst := List.mem_map_of_mem he
    exact hafter (heq ▸ hkey)
  · intro e he heq
    exact hbefore _ (List.mem_map_of_mem he) _ List.mem_cons_self heq

/-! ### The budgets along a callback -/

/-- What a callback cancelled was issued. -/
theorem Booked.issued {start ctx : ActionContext E O}
    {log : List (ContextCall E O × ContextReply E O)} (h : Booked start ctx log)
    (hissued : ∀ {id}, start.timeline.Issued id → ctx.timeline.Issued id)
    (hwf : start.timeline.WF) {token : EventToken} (hmem : token ∈ cancels log) :
    ctx.timeline.Issued token.id := by
  have hbooks : token ∈ tokens start.timeline + (sends start.action log).map Prod.fst := by
    rw [h.balance]
    exact Multiset.mem_add.mpr (.inr hmem)
  rcases Multiset.mem_add.mp hbooks with hold | hsent
  · obtain ⟨⟨_, routed⟩, hp, rfl⟩ := List.mem_map.mp (Multiset.mem_coe.mp hold)
    obtain ⟨entry, hentry, -⟩ := Timeline.mem_pending.mp hp
    exact hissued (hwf.issued hentry)
  · obtain ⟨s, hs, rfl⟩ := List.mem_map.mp (Multiset.mem_coe.mp hsent)
    exact (h.fresh s hs).2

/-- What is pending was not cancelled. -/
theorem Booked.uncancelled {start ctx : ActionContext E O}
    {log : List (ContextCall E O × ContextReply E O)} (h : Booked start ctx log)
    (hwf : start.timeline.WF) {token : EventToken} {entry : Entry (Routed E)}
    (hlook : ctx.timeline.lookup token = some entry) : token ∉ cancels log := by
  intro hmem
  have hnodup := booked_nodup h hwf
  rw [h.balance] at hnodup
  have hpending : token ∈ tokens ctx.timeline :=
    List.mem_map.mpr ⟨(token, entry.event), Timeline.mem_pending.mpr ⟨entry, hlook, rfl⟩, rfl⟩
  exact Multiset.disjoint_left.mp (Multiset.nodup_add.mp hnodup).2.2 hpending hmem

variable [Retained E] [Retained O]

/-- The counters of a callback that came from `start` to `ctx` are what its log says,
and within the limits. -/
structure Budgeted (start ctx : ActionContext E O)
    (log : List (ContextCall E O × ContextReply E O)) : Prop where
  transaction : Transaction start ctx
  booked : Booked start ctx log
  effects : ctx.effects.val = effectCount start.action log
  effectsLimit : ctx.effects ≤ start.limits.effects.get
  bytes : ctx.effectBytes.val
    = insertedBytes start.action log + displacedBytes start.timeline log
  bytesLimit : ctx.effectBytes ≤ start.limits.effectBytes
  observed : ctx.observations = observations log
  observationsLimit : ctx.observations.length ≤ start.limits.observations.get.val
  observationBytes : ctx.observationBytes.val = observedBytes log
  observationBytesLimit : ctx.observationBytes ≤ start.limits.observationBytes
  /-- The insertions that are still pending are sends of the log. -/
  own : ∀ {token retained}, ctx.inserted.get? token = some retained →
    ∃ routed, (token, routed) ∈ sends start.action log ∧ Retained.retainedBytes routed = retained

section

variable {start ctx ctx' : ActionContext E O} {log : List (ContextCall E O × ContextReply E O)}

/-- A call that neither sends, cancels nor observes anything. -/
theorem Budgeted.idle (h : Budgeted start ctx log) {l : ContextCall E O × ContextReply E O}
    (hbooked : Booked start ctx (log ++ [l])) (hsent : sentBy start.action l = none)
    (hcancelled : cancelledBy l = none) (hobserved : observedBy l = none) :
    Budgeted start ctx (log ++ [l]) := by
  have hsends : sends start.action (log ++ [l]) = sends start.action log := by
    rw [sends_snoc, hsent, Option.toList_none, List.append_nil]
  have hcancels : cancels (log ++ [l]) = cancels log := by
    rw [cancels_snoc, hcancelled, Option.toList_none, List.append_nil]
  have hobservations : observations (log ++ [l]) = observations log := by
    rw [observations_snoc, hobserved, Option.toList_none, List.append_nil]
  refine ⟨h.transaction, hbooked, ?_, h.effectsLimit, ?_, h.bytesLimit, ?_, h.observationsLimit,
    ?_, h.observationBytesLimit, ?_⟩
  · rw [h.effects, effectCount, effectCount, hsends, hcancels]
  · rw [h.bytes, insertedBytes, insertedBytes, displacedBytes, displacedBytes, hsends, hcancels]
  · rw [h.observed, hobservations]
  · rw [h.observationBytes, observedBytes, observedBytes, hobservations]
  · rw [hsends]
    exact h.own

theorem Budgeted.sent (h : Budgeted start ctx log) {request : ContextCall E O} {target : DutyId}
    {moment : Moment} {event : E} {token : EventToken}
    (hsends : request.sends = some (target, event))
    (hi : ctx.Inserts target moment event token ctx') (hspends : ctx.Spends ctx')
    (htransaction : Transaction start ctx')
    (hbooked : Booked start ctx' (log ++ [(request, .sent (.ok token))])) :
    Budgeted start ctx' (log ++ [(request, .sent (.ok token))]) := by
  have hlimits : ctx.limits = start.limits := h.transaction.frame.limits
  have hs : sends start.action (log ++ [(request, .sent (.ok token))])
      = sends start.action log ++ [(token, ⟨target, some start.action, event⟩)] := by
    rw [sends_snoc, sentBy, hsends]
    rfl
  have hcancels : cancels (log ++ [(request, .sent (.ok token))]) = cancels log := by
    rw [cancels_snoc, cancelledBy_sent, Option.toList_none, List.append_nil]
  have hobservations : observations (log ++ [(request, .sent (.ok token))])
      = observations log := by
    have hnone : observedBy (request, (.sent (.ok token) : ContextReply E O)) = none := by
      cases request <;> rfl
    rw [observations_snoc, hnone, Option.toList_none, List.append_nil]
  -- what was cancelled had been issued before
  have hunlisted : token ∉ cancels log := fun hmem => hi.admits.not_issued
    (h.booked.issued h.transaction.issued h.transaction.startWF hmem)
  have hobserved : ctx'.observations = ctx.observations := by rw [hi.result]
  have hobservationBytes : ctx'.observationBytes = ctx.observationBytes := by rw [hi.result]
  refine ⟨htransaction, hbooked, ?_, hlimits ▸ hspends.limit, ?_, ?_, ?_, ?_, ?_, ?_, ?_⟩
  · rw [hspends.effects, h.effects, effectCount, effectCount, hs, hcancels, List.length_append,
      List.length_singleton]
    omega
  · rw [hi.bytes, h.bytes, insertedBytes, insertedBytes, displacedBytes, displacedBytes, hs, hcancels,
      List.filter_append, List.filter_cons_of_pos (by simpa using hunlisted), List.filter_nil,
      List.map_append, List.sum_append, List.map_singleton, List.sum_singleton]
    show _ = _ + (Retained.retainedBytes event).val + _
    omega
  · rcases hspends.bytes with hle | hle
    · exact hlimits ▸ hle
    · exact hle.trans h.bytesLimit
  · rw [hobserved, h.observed, hobservations]
  · rw [hobserved]
    exact h.observationsLimit
  · rw [hobservationBytes, h.observationBytes, observedBytes, observedBytes, hobservations]
  · rw [hobservationBytes]
    exact h.observationBytesLimit
  · intro token' retained hget
    rw [hs]
    have hinserted : ctx'.inserted = ctx.inserted.insert token (Retained.retainedBytes event) := by
      rw [hi.result]
    rw [hinserted, OrderedMap.get?_insert] at hget
    split_ifs at hget with heq
    · obtain rfl := Option.some_inj.mp hget
      exact ⟨⟨target, some start.action, event⟩, by simp [heq], rfl⟩
    · obtain ⟨routed, hmem, hretained⟩ := h.own hget
      exact ⟨routed, List.mem_append_left _ hmem, hretained⟩

/-- A cancellation, once its bytes are accounted for. -/
theorem Budgeted.cancelled (h : Budgeted start ctx log) {token : EventToken}
    (hspends : ctx.Spends ctx') (htransaction : Transaction start ctx')
    (hbooked : Booked start ctx' (log ++ [cancellation token]))
    (hbytes : ctx'.effectBytes.val
      = insertedBytes start.action (log ++ [cancellation token])
        + displacedBytes start.timeline (log ++ [cancellation token]))
    (hobserved : ctx'.observations = ctx.observations)
    (hobservationBytes : ctx'.observationBytes = ctx.observationBytes)
    (hown : ∀ {token' retained}, ctx'.inserted.get? token' = some retained →
      ctx.inserted.get? token' = some retained) :
    Budgeted start ctx' (log ++ [cancellation token]) := by
  have hlimits : ctx.limits = start.limits := h.transaction.frame.limits
  have hsends := sends_cancellation start.action log token
  have hcancels := cancels_cancellation log token
  have hobservations : observations (log ++ [cancellation token]) = observations log :=
    (observations_snoc log _).trans (List.append_nil _)
  refine ⟨htransaction, hbooked, ?_, hlimits ▸ hspends.limit, hbytes, ?_, ?_, ?_, ?_, ?_, ?_⟩
  · rw [hspends.effects, h.effects, effectCount, effectCount, hsends, hcancels,
      List.length_append, List.length_singleton]
    omega
  · rcases hspends.bytes with hle | hle
    · exact hlimits ▸ hle
    · exact hle.trans h.bytesLimit
  · rw [hobserved, h.observed, hobservations]
  · rw [hobserved]
    exact h.observationsLimit
  · rw [hobservationBytes, h.observationBytes, observedBytes, observedBytes, hobservations]
  · rw [hobservationBytes]
    exact h.observationBytesLimit
  · rw [hsends]
    exact fun hget => h.own (hown hget)

/-- An own insertion is taken off the account. -/
theorem Budgeted.cancelledOwn (h : Budgeted start ctx log) {token : EventToken}
    {entry : Entry (Routed E)} (hc : ctx.CancelsOwn token entry ctx') (hspends : ctx.Spends ctx')
    (htransaction : Transaction start ctx')
    (hbooked : Booked start ctx' (log ++ [cancellation token])) :
    Budgeted start ctx' (log ++ [cancellation token]) := by
  obtain ⟨routed, hsent, hretained⟩ := h.own hc.own
  have hunlisted := h.booked.uncancelled h.transaction.startWF hc.removes.pending
  have hnew : start.timeline.lookup token = none := by
    by_contra hne
    obtain ⟨old, hold⟩ := Option.ne_none_iff_exists'.mp hne
    exact h.transaction.insertedNew hc.own (h.transaction.startWF.issued hold)
  refine h.cancelled hspends htransaction hbooked ?_ (by rw [hc.result]) (by rw [hc.result])
    fun {token' retained} hget => ?_
  -- what was sent and not cancelled is the token and the rest
  · have hsum := sum_unlisted (fun routed => (Retained.retainedBytes routed).val) h.booked.nodup
      hsent hunlisted
    have hbytes := h.bytes
    rw [insertedBytes, hsum, displacedBytes, hretained, hc.bytes] at hbytes
    have hcancels := cancels_cancellation log token
    have hsends := sends_cancellation start.action log token
    rw [insertedBytes, displacedBytes, hcancels, hsends, List.filterMap_append]
    simp only [List.filterMap_cons, List.filterMap_nil, hnew, List.append_nil]
    omega
  · have hinserted : ctx'.inserted = ctx.inserted.erase token := by rw [hc.result]
    rw [hinserted, OrderedMap.get?_erase] at hget
    split_ifs at hget
    exact hget

/-- An earlier event is charged to the account. -/
theorem Budgeted.cancelledOld (h : Budgeted start ctx log) {token : EventToken}
    {entry : Entry (Routed E)} (hc : ctx.CancelsOld token entry ctx') (hspends : ctx.Spends ctx')
    (htransaction : Transaction start ctx')
    (hbooked : Booked start ctx' (log ++ [cancellation token])) :
    Budgeted start ctx' (log ++ [cancellation token]) := by
  have ht := h.transaction
  obtain ⟨hold, hentry, -⟩ := ht.old_entry hc
  have hmeasured : entry.retained = Retained.retainedBytes entry.event := by
    rw [ht.startWF.measured hentry, ht.measure]
  -- so the cancellation takes nothing off what was inserted
  have hunsent : ∀ s ∈ sends start.action log, s.1 ≠ token :=
    fun s hs heq => (h.booked.fresh s hs).1 (heq ▸ hold)
  refine h.cancelled hspends htransaction hbooked ?_ (by rw [hc.result]) (by rw [hc.result])
    fun {token' retained} hget => ?_
  · have hcancels := cancels_cancellation log token
    have hsends := sends_cancellation start.action log token
    have hkept : ((sends start.action log).filter fun s => s.1 ∉ cancels log ++ [token])
        = (sends start.action log).filter fun s => s.1 ∉ cancels log := by
      refine List.filter_congr fun s hs => ?_
      simp [hunsent s hs]
    rw [hc.bytes, h.bytes, insertedBytes, insertedBytes, displacedBytes, displacedBytes, hcancels,
      hsends, hkept, List.filterMap_append]
    simp only [List.filterMap_cons, List.filterMap_nil, hentry, List.map_append, List.map_cons,
      List.map_nil, List.sum_append, List.sum_singleton, hmeasured]
    omega
  · have hinserted : ctx'.inserted = ctx.inserted := by rw [hc.result]
    rwa [hinserted] at hget

theorem Budgeted.observes (h : Budgeted start ctx log) {observation : O}
    {observationBytes : RetainedBytes} (hresult : ctx' = { ctx with
      observations := ctx.observations ++ [observation], observationBytes })
    (hcount : ctx.observations.length < ctx.limits.observations.get.val)
    (hbytes : observationBytes.val
      = ctx.observationBytes.val + (Retained.retainedBytes observation).val)
    (hlimit : observationBytes ≤ ctx.limits.observationBytes)
    (htransaction : Transaction start ctx')
    (hbooked : Booked start ctx' (log ++ [emission observation])) :
    Budgeted start ctx' (log ++ [emission observation]) := by
  have hlimits : ctx.limits = start.limits := h.transaction.frame.limits
  have hsends : sends start.action (log ++ [emission observation]) = sends start.action log :=
    (sends_snoc _ log _).trans (List.append_nil _)
  have hcancels : cancels (log ++ [emission observation]) = cancels log :=
    (cancels_snoc log _).trans (List.append_nil _)
  have hobservations : observations (log ++ [emission observation])
      = observations log ++ [observation] := observations_snoc log _
  subst hresult
  refine ⟨htransaction, hbooked, ?_, h.effectsLimit, ?_, h.bytesLimit, ?_, ?_, ?_,
    hlimits ▸ hlimit, ?_⟩
  · rw [effectCount, hsends, hcancels]
    exact h.effects
  · rw [insertedBytes, displacedBytes, hsends, hcancels]
    exact h.bytes
  · rw [hobservations, ← h.observed]
  · rw [List.length_append, List.length_singleton]
    exact hlimits ▸ hcount
  · rw [observedBytes, hobservations, List.map_append, List.sum_append, List.map_singleton,
      List.sum_singleton, hbytes, h.observationBytes, observedBytes]
  · rw [hsends]
    exact h.own

/-- **The step lemma** of the budgets. -/
theorem Budgeted.next (h : Budgeted start ctx log) {l : ContextCall E O × ContextReply E O}
    (hbooks : Books ctx l.1 l.2 ctx') : Budgeted start ctx' (log ++ [l]) := by
  have htransaction := h.transaction.performs hbooks.performs
  have hbooked := h.booked.performs h.transaction hbooks.performs
  obtain ⟨request, reply⟩ := l
  -- a rejected call adds nothing to the log that the counters see
  cases hbooks with
  | rejected hrejected =>
    cases request with
    | send | sendAfter | sendAt | cancel | observe =>
      obtain ⟨failure, -, rfl⟩ := Option.map_eq_some_iff.mp hrejected
      exact h.idle hbooked rfl rfl rfl
  | sent _ hsends hi hspends => exact h.sent hsends hi hspends htransaction hbooked
  | cancelledOwn _ hc hspends => exact h.cancelledOwn hc hspends htransaction hbooked
  | cancelledOld _ hc hspends => exact h.cancelledOld hc hspends htransaction hbooked
  | observed _ hcount hbytes hlimit =>
    exact h.observes rfl hcount hbytes hlimit htransaction hbooked

/-- **The run lemma** of the budgets. -/
theorem Transaction.budgeted (h : Transaction start start) (heffects : start.effects = 0)
    (hbytes : start.effectBytes = 0) (hobservations : start.observations = [])
    (hobservationBytes : start.observationBytes = 0) (hinserted : start.inserted = .empty)
    (hlog : Steps ActionContext.Calls start log ctx) : Budgeted start ctx log := by
  have hbegin : Budgeted start start [] := by
    refine ⟨h, .steps h .refl, ?_, ?_, ?_, ?_, ?_, ?_, ?_, ?_, fun hget => ?_⟩
    · simp [heffects, effectCount, sends, cancels]
    · simp [heffects]
    · simp [hbytes, insertedBytes, displacedBytes, sends, cancels]
    · simp [hbytes]
    · simp [hobservations, observations]
    · simp [hobservations]
    · simp [hobservationBytes, observedBytes, observations]
    · simp [hobservationBytes]
    · rw [hinserted, OrderedMap.get?_empty] at hget
      cases hget
  refine hlog.invariant (I := fun log ctx => Budgeted start ctx log) hbegin ?_
  intro log u l v _ hu hcall
  obtain ⟨v', reply, hperform, hbooks⟩ := hu.transaction.perform_books l.1
  obtain ⟨rfl, rfl⟩ := Prod.mk.inj (Except.ok.inj (hperform.symm.trans hcall))
  exact hu.next hbooks

/-- A call is rejected exactly if it violates a check. -/
theorem Transaction.perform_rejection (h : Transaction start ctx) (request : ContextCall E O) :
    match request.rejection ctx with
    | some reply => ctx.perform request = .ok (ctx, reply) ∧ reply.accepted = false
    | none => ∃ ctx' reply, ctx.perform request = .ok (ctx', reply) ∧ reply.accepted = true := by
  obtain ⟨ctx', reply, hperform, hbooks⟩ := h.perform_books request
  cases hbooks with
  | rejected hrejected =>
    rw [hrejected]
    refine ⟨hperform, ?_⟩
    cases request with
    | send | sendAfter | sendAt | cancel | observe =>
      obtain ⟨failure, -, rfl⟩ := Option.map_eq_some_iff.mp hrejected
      rfl
  | sent hpassed =>
    rw [hpassed]
    exact ⟨_, _, hperform, rfl⟩
  | cancelledOwn hpassed =>
    rw [hpassed]
    exact ⟨_, _, hperform, rfl⟩
  | cancelledOld hpassed =>
    rw [hpassed]
    exact ⟨_, _, hperform, rfl⟩
  | observed hpassed =>
    rw [hpassed]
    exact ⟨_, _, hperform, rfl⟩

end

namespace Simulation

variable {M S N ME SE NE : Type} [Model M E O ME] [Scheduler S SE] [Monitor N M O NE]

/-- **The budgets of an action** are exact, and a rejected call changes nothing.
After every sequence of context calls of every action:

* the counters are what the log of the calls says, and within the limits;
* the next call is rejected with the first check it violates, which hands back
  what it brought and leaves the context as it is, or else succeeds;
* nothing panics, nor does the rollback that may follow. -/
theorem action_budgets {tr : List (Call E × Reply E O ME NE SE)} {sim : Simulation M S N E}
    (h : (system M S N E O ME SE NE).Run tr sim)
    {started : Simulation M S N E} {callback : Callback M E O ME}
    (hattempt : sim.attempt = some (started, callback))
    {log : List (ContextCall E O × ContextReply E O)} {ctx : ActionContext E O}
    (hlog : Steps ActionContext.Calls (started.context callback.metadata) log ctx) :
    (ctx.effects.val = effectCount callback.metadata.id log ∧
      ctx.effects ≤ sim.limits.actionContext.effects.get) ∧
    (ctx.effectBytes.val
        = insertedBytes callback.metadata.id log + displacedBytes started.timeline log ∧
      ctx.effectBytes ≤ sim.limits.actionContext.effectBytes) ∧
    (ctx.observations = observations log ∧
      ctx.observations.length ≤ sim.limits.actionContext.observations.get.val) ∧
    (ctx.observationBytes.val = observedBytes log ∧
      ctx.observationBytes ≤ sim.limits.actionContext.observationBytes) ∧
    (∀ request : ContextCall E O, match request.rejection ctx with
      | some reply => ctx.perform request = .ok (ctx, reply) ∧ reply.accepted = false
      | none => ∃ ctx' reply, ctx.perform request = .ok (ctx', reply) ∧
          reply.accepted = true) ∧
    ∃ timeline, ctx.drop = .ok timeline := by
  have hs := reachable_sound h.reachable
  have hb := ((attempt_iff hs).mp hattempt).2
  have hstart := hb.sound hs
  have hbegin : Transaction (E := E) (O := O) (started.context callback.metadata)
      (started.context callback.metadata) :=
    .begin hstart.wf hstart.measure rfl rfl rfl
  have hbudget := hbegin.budgeted rfl rfl rfl rfl rfl hlog
  have hlimits : (started.context callback.metadata : ActionContext E O).limits
      = sim.limits.actionContext := by
    show started.limits.actionContext = _
    rw [hb.frame]
  obtain ⟨timeline, hdrop, -⟩ := hbudget.transaction.drop hbudget.transaction.frame.committed
  refine ⟨⟨hbudget.effects, hlimits ▸ hbudget.effectsLimit⟩,
    ⟨hbudget.bytes, hlimits ▸ hbudget.bytesLimit⟩,
    ⟨hbudget.observed, hlimits ▸ hbudget.observationsLimit⟩,
    ⟨hbudget.observationBytes, hlimits ▸ hbudget.observationBytesLimit⟩,
    hbudget.transaction.perform_rejection, timeline, hdrop⟩

/-- Two sends and two cancellations, of one of them and of an earlier event. -/
theorem action_budgets_failing :
    ∃ started callback, ∃ ctx : ActionContext Unit Unit, ∃ log,
      failingWorld.attempt = some (started, callback) ∧
      Steps ActionContext.Calls (started.context callback.metadata) log ctx ∧
      effectCount callback.metadata.id log = 4 := by
  have hrun := Playback.recorded_world [failingCallback] Fifo.mk NoopMonitor.mk [.injectAfter 1 5 ()]
  obtain ⟨⟨started, callback⟩, hattempt⟩ := Option.isSome_iff_exists.mp
    (by decide +kernel : failingWorld.attempt.isSome = true)
  have heffects : (failingWorld.attempt.bind fun a =>
      (a.2.program.run (a.1.context a.2.metadata)).toOption.map fun o => o.1.effects.val)
        = some 4 := by decide +kernel
  cases hprogram : callback.program.run (started.context callback.metadata) with
  | error => simp [hattempt, hprogram, Except.toOption] at heffects
  | ok out =>
    obtain ⟨ctx, log, result⟩ := out
    have hlog := Program.run_calls hprogram
    have hcount := (action_budgets hrun.ofRecording hattempt hlog).1.1
    simp only [hattempt, Option.bind_some, hprogram, Except.toOption, Option.map_some,
      Option.some_inj] at heffects
    exact ⟨started, callback, ctx, log, hattempt, hlog, hcount.symm.trans heffects⟩

end Simulation

end Calandria
