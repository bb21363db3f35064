/-
Stops and terminal states are final.

* `Retired` — what it means that a duty takes no further part: it is in no
  ready set, no callback of it runs, and what is sent or injected to it comes
  back;
* `Final` — what it means that a simulation is over: every call returns the
  simulation as it was, with the reply `finalReply`;
* `Unwound` — what a panic leaves of a step, by the hook it came from;
* `finality` — in every run, a committed stop retires its duty for good, a step
  that fails, completes or panics ends the simulation for good, and a panic
  leaves what `Unwound` says.

Two checks come before those for a stopped duty or a terminal simulation: a
relative delay that overflows virtual time, and a spent effect budget.  The
replies below are exact about both (`Call.failure`, `ActionContext.refusal`),
and `overflow_found_first` shows them in a run.
-/
import Calandria.Atomicity

namespace Calandria

/-! ### What refused calls return -/

/-- The failure of an injection that is refused with `failure`, unless its
moment cannot be computed in the first place. -/
def Call.failure {E : Type} (now : Moment) (failure : InjectionFailure) :
    Call E → InjectionFailure
  | .injectAfter _ delay _ =>
    if (now.checkedAdd delay).isNone then .timeOverflow now delay else failure
  | .step | .inject .. | .injectAt .. => failure

/-- The failure of a send to a stopped duty. -/
def ActionContext.refusal {E O : Type} (ctx : ActionContext E O) (duty : DutyId)
    (request : ContextCall E O) : SendFailure :=
  let failure : SendFailure :=
    if ctx.limits.effects.get ≤ ctx.effects then .effectCapacity ctx.limits.effects
    else .targetStopped duty
  match request with
  | .sendAfter _ delay _ =>
    if (ctx.now.checkedAdd delay).isNone then .timeOverflow ctx.now delay else failure
  | _ => failure

/-- The phase and the poison flag that a step of a live simulation leaves. -/
def StepReturn.lifecycle {O ME NE SE : Type} :
    StepReturn O ME NE SE → SimulationPhase × Bool
  | .ok (.completed _) => (.completed, false)
  | .ok _ => (.active, false)
  | .err _ => (.failed, false)
  | .unwound _ => (.active, true)

/-- One context call of a callback, as the context answers it. -/
def ActionContext.Calls {E O : Type} [Retained E] [Retained O] (ctx : ActionContext E O)
    (l : ContextCall E O × ContextReply E O) (ctx' : ActionContext E O) : Prop :=
  ctx.perform l.1 = .ok (ctx', l.2)

/-- Why a context call did not send, if it was a send. -/
def ContextReply.rejection {E O : Type} : ContextReply E O → Option SendFailure
  | .sent (.error error) => some error.failure
  | .sent (.ok _) | .cancelled _ | .observed _ => none

namespace Simulation

variable {M S N E O ME SE NE : Type}

/-- Why a terminal simulation refuses a step. -/
def lifecycleError (sim : Simulation M S N E) : StepError ME NE SE :=
  if sim.poisoned then .poisoned else .inactive sim.phase

/-- Why a terminal simulation refuses an injection. -/
def lifecycleFailure (sim : Simulation M S N E) : InjectionFailure :=
  if sim.poisoned then .poisoned else .inactive sim.phase

/-- Why a simulation refuses an injection to a stopped duty. -/
def refusal (sim : Simulation M S N E) (duty : DutyId) : InjectionFailure :=
  if sim.poisoned = false ∧ sim.phase = .active then .targetStopped duty else sim.lifecycleFailure

/-- The reply of a terminal simulation: a typed refusal, with the event handed back. -/
def finalReply (sim : Simulation M S N E) (call : Call E) : Reply E O ME NE SE :=
  match call.injects with
  | none => .stepped (.err sim.lifecycleError)
  | some (_, event) => .injected (.error ⟨event, call.failure sim.now sim.lifecycleFailure⟩)

variable [Retained E] [Retained O] [Model M E O ME] [Scheduler S SE]

/-- The action that the next step commits, and the turn its callback returns. -/
def commitment (sim : Simulation M S N E) : Option (ActionMeta × Turn) :=
  match sim.attempt with
  | none => none
  | some (started, callback) =>
    match callback.program.run (started.context callback.metadata) with
    | .ok (ctx, _, _, .ok turn) =>
      match commitContext callback.metadata.key.duty turn ctx with
      | .ok (_, .ok _) => some (callback.metadata, turn)
      | _ => none
    | _ => none

/-- What a panic leaves of the step that it ends. -/
def Unwound (sim sim' : Simulation M S N E) : Boundary → Prop
  -- nothing but the scheduler itself and the ready buffer has changed
  | .choose | .finished =>
    sim' = { sim with ready := sim'.ready, scheduler := sim'.scheduler, poisoned := true }
  -- the context is rolled back, the delivered event stays consumed
  | .model => ∃ started callback ctx log model, sim.attempt = some (started, callback) ∧
      callback.program.run (started.context callback.metadata) = .ok (ctx, log, model, .panicked) ∧
      ((callback.delivered = none ∧ started.timeline = sim.timeline) ∨
        ∃ token routed, callback.delivered = some (token, routed) ∧
          sim.timeline.cancel token = .ok (started.timeline, some routed)) ∧
      sim' = { started with
        model, poisoned := true
        timeline := { started.timeline with nextId := sim'.timeline.nextId } } ∧
      sim'.states = sim.states ∧ sim'.stopped = sim.stopped
  -- the simulation is the one that the callback's commit left, but for the hooks
  | .committed | .monitor => ∃ started callback ctx log model turn timeline observations updated,
      sim.attempt = some (started, callback) ∧
      callback.program.run (started.context callback.metadata) = .ok (ctx, log, model, .ok turn) ∧
      commitContext callback.metadata.key.duty turn ctx = .ok (timeline, .ok observations) ∧
      ({ started with model, timeline } : Simulation M S N E).updateOwner
        callback.metadata.key.duty turn callback.delivered.isSome = .ok updated ∧
      sim' = { updated with
        scheduler := sim'.scheduler, monitor := sim'.monitor, poisoned := true }

variable [Monitor N M O NE]

/-- A duty that takes no further part in `sim`. -/
structure Retired (sim : Simulation M S N E) (duty : DutyId) : Prop where
  stopped : duty ∈ sim.stopped
  unneeded : ∀ token routed, (token, routed) ∈ sim.timeline.pending → routed.target ≠ duty
  unselected : ∀ built result, sim.buildReady = .ok (built, result) →
    ∀ key ∈ built.ready, key.duty ≠ duty
  unexecuted : ∀ started callback, sim.attempt = some (started, callback) →
    callback.metadata.key.duty ≠ duty
  /-- An injection hands the event back and changes nothing. -/
  injections : ∀ call event, call.injects = some (duty, event) → sim.exec call
    = .ok (sim, .injected (.error ⟨event, call.failure sim.now (sim.refusal duty)⟩))
  /-- So does every send of the next action's callback. -/
  sends : ∀ started callback, sim.attempt = some (started, callback) → ∀ ctx log result,
    callback.program.run (started.context callback.metadata) = .ok (ctx, log, result) →
      ∀ before request reply after event, log = before ++ (request, reply) :: after →
        request.sends = some (duty, event) → ∃ mid,
          Steps ActionContext.Calls (started.context callback.metadata) before mid ∧
            mid.perform request = .ok (mid, reply) ∧
            reply = .sent (.error ⟨event, mid.refusal duty request⟩)

/-- A simulation that is over: whatever is called, and however often, it stays
as it is. -/
structure Final (sim : Simulation M S N E) : Prop where
  answers : ∀ call, sim.exec call = .ok (sim, sim.finalReply call)
  forever : ∀ tr later, Steps (system M S N E O ME SE NE).step sim tr later →
    later = sim ∧ ∀ l ∈ tr, l.2 = sim.finalReply l.1

/-! ### Terminal simulations -/

omit [Retained E] [Retained O] [Model M E O ME] [Scheduler S SE] [Monitor N M O NE] in
theorem not_live {sim : Simulation M S N E} :
    ¬ sim.Live ↔ sim.poisoned = true ∨ sim.phase ≠ .active := by
  constructor
  · intro h
    by_contra hn
    rw [not_or, Bool.not_eq_true, not_not] at hn
    exact h ⟨hn.1, hn.2⟩
  · rintro (h | h) hlive
    · simp [hlive.unpoisoned] at h
    · exact h hlive.active

omit [Retained E] [Retained O] [Model M E O ME] [Scheduler S SE] [Monitor N M O NE] in
/-- The lifecycle is checked before anything about the target. -/
theorem injectAt_not_live {sim : Simulation M S N E} (h : ¬ sim.Live) (target : DutyId)
    (moment : Moment) (event : E) :
    sim.injectAt target moment event = .ok (sim, .error ⟨event, sim.lifecycleFailure⟩) := by
  rw [injectAt, lifecycleFailure]
  by_cases hpoisoned : sim.poisoned = true
  · rw [if_pos hpoisoned, if_pos hpoisoned]
  · have hphase := (not_live.mp h).resolve_left hpoisoned
    rw [if_neg hpoisoned, if_neg hpoisoned, if_pos hphase]

theorem step_not_live {sim : Simulation M S N E} (h : ¬ sim.Live) :
    (sim.step : Except Panic (_ × StepReturn O ME NE SE)) = .ok (sim, .err sim.lifecycleError) := by
  rw [step, lifecycleError]
  by_cases hpoisoned : sim.poisoned = true
  · rw [if_pos hpoisoned, if_pos hpoisoned]
  · have hphase := (not_live.mp h).resolve_left hpoisoned
    rw [if_neg hpoisoned, if_neg hpoisoned, if_pos hphase]

/-- An injection that `inject_at` refuses whatever the moment is refused. -/
theorem exec_refused {sim : Simulation M S N E} {target : DutyId} {event : E} {failure : InjectionFailure}
    (h : ∀ moment, sim.injectAt target moment event = .ok (sim, .error ⟨event, failure⟩))
    {call : Call E} (hcall : call.injects = some (target, event)) :
    sim.exec call = .ok (sim, (.injected (.error ⟨event, call.failure sim.now failure⟩) :
      Reply E O ME NE SE)) := by
  cases call with
  | step => simp [Call.injects] at hcall
  | inject target' event' =>
    obtain ⟨rfl, rfl⟩ := Prod.mk.inj (Option.some_inj.mp hcall)
    rw [exec, inject, h]
    rfl
  | injectAfter target' delay event' =>
    obtain ⟨rfl, rfl⟩ := Prod.mk.inj (Option.some_inj.mp hcall)
    rw [exec, injectAfter, Call.failure]
    cases hadd : sim.now.checkedAdd delay with
    | none => rfl
    | some moment =>
      simp only [h]
      rfl
  | injectAt target' moment event' =>
    obtain ⟨rfl, rfl⟩ := Prod.mk.inj (Option.some_inj.mp hcall)
    rw [exec, h]
    rfl

/-- **A simulation that is not live is over.** -/
theorem final_of_not_live {sim : Simulation M S N E} (h : ¬ sim.Live) : sim.Final := by
  have hanswers : ∀ call, sim.exec call = .ok (sim, sim.finalReply call) := by
    intro call
    cases hcall : call.injects with
    | none =>
      cases call with
      | step =>
        rw [exec, step_not_live h]
        rfl
      | inject | injectAfter | injectAt => simp [Call.injects] at hcall
    | some routed =>
      rw [finalReply, hcall]
      exact exec_refused (fun moment => injectAt_not_live h routed.1 moment routed.2) hcall
  refine ⟨hanswers, fun tr later hrun => ?_⟩
  -- the state never leaves `sim`, so every label is the answer of `sim`
  refine hrun.invariant (I := fun tr later => later = sim ∧ ∀ l ∈ tr, l.2 = sim.finalReply l.1)
    ⟨rfl, by simp⟩ ?_
  rintro tr u l v - ⟨rfl, htr⟩ hstep
  have hreply : v = u ∧ l.2 = u.finalReply l.1 := by
    have h' := (hanswers l.1).symm.trans hstep
    obtain ⟨hv, hl⟩ := Prod.mk.inj (Except.ok.inj h')
    exact ⟨hv.symm, hl.symm⟩
  refine ⟨hreply.1, fun l' hmem => ?_⟩
  rcases List.mem_append.mp hmem with hmem | hmem
  · exact htr l' hmem
  · obtain rfl := List.mem_singleton.mp hmem
    exact hreply.2

/-! ### Sends to a stopped duty -/

end Simulation

section

variable {E O α : Type} [Retained E] [Retained O]

omit [Retained O] in
theorem ActionContext.validateTarget_stopped {ctx : ActionContext E O} {duty : DutyId}
    (hknown : ctx.topology.contains duty = true) (hstopped : duty ∈ ctx.stopped)
    (moment : Moment) (event : E) :
    ctx.validateTarget duty moment event = .ok (ctx, .error ⟨event,
      if ctx.limits.effects.get ≤ ctx.effects then .effectCapacity ctx.limits.effects
      else .targetStopped duty⟩) := by
  rw [validateTarget]
  by_cases hfull : ctx.limits.effects.get ≤ ctx.effects
  · rw [if_pos hfull, if_pos hfull]
  · rw [if_neg hfull, if_neg hfull, if_neg (by simpa using hknown), if_pos hstopped]

theorem ActionContext.perform_stopped {ctx : ActionContext E O} {duty : DutyId} {event : E}
    {request : ContextCall E O} (hknown : ctx.topology.contains duty = true)
    (hstopped : duty ∈ ctx.stopped) (hsends : request.sends = some (duty, event)) :
    ctx.perform request = .ok (ctx, .sent (.error ⟨event, ctx.refusal duty request⟩)) := by
  have hrefused := validateTarget_stopped hknown hstopped
  cases request with
  | send target event' =>
    obtain ⟨rfl, rfl⟩ := Prod.mk.inj (Option.some_inj.mp hsends)
    rw [perform, send, sendAt, hrefused]
    rfl
  | sendAfter target delay event' =>
    obtain ⟨rfl, rfl⟩ := Prod.mk.inj (Option.some_inj.mp hsends)
    rw [perform, sendAfter, refusal]
    cases hadd : ctx.now.checkedAdd delay with
    | none => rfl
    | some moment =>
      simp only [sendAt, hrefused]
      rfl
  | sendAt target moment event' =>
    obtain ⟨rfl, rfl⟩ := Prod.mk.inj (Option.some_inj.mp hsends)
    rw [perform, sendAt, hrefused]
    rfl
  | cancel | observe => simp [ContextCall.sends] at hsends

/-- The log of a callback lists its context calls in order. -/
theorem Program.run_calls {program : Program E O α} {ctx ctx' : ActionContext E O}
    {log : List (ContextCall E O × ContextReply E O)} {result : α}
    (h : program.run ctx = .ok (ctx', log, result)) :
    Steps ActionContext.Calls ctx log ctx' := by
  induction program generalizing ctx log with
  | done value =>
    simp only [run, Except.ok.injEq, Prod.mk.injEq] at h
    obtain ⟨rfl, rfl, -⟩ := h
    exact .refl
  | call request next ih =>
    simp only [run, bind, Except.bind] at h
    cases hperform : ctx.perform request with
    | error => simp [hperform] at h
    | ok answered =>
      obtain ⟨ctx₁, reply⟩ := answered
      simp only [hperform] at h
      cases hrest : (next reply).run ctx₁ with
      | error => simp [hrest] at h
      | ok rest =>
        obtain ⟨ctx₂, log₂, value⟩ := rest
        simp only [hrest, Except.ok.injEq, Prod.mk.injEq] at h
        obtain ⟨rfl, rfl, rfl⟩ := h
        exact (Steps.single (l := (request, reply)) hperform).trans (ih reply hrest)

/-- The calls of a callback stay inside its transaction. -/
theorem Transaction.calls {start ctx ctx' : ActionContext E O}
    {log : List (ContextCall E O × ContextReply E O)} (h : Transaction start ctx)
    (hlog : Steps ActionContext.Calls ctx log ctx') : Transaction start ctx' := by
  refine hlog.preserves (P := Transaction start) (fun {u l v} hu hcall => ?_) h
  obtain ⟨v', reply, hperform, hp⟩ := hu.perform_cases l.1
  obtain ⟨rfl, -⟩ := Prod.mk.inj (Except.ok.inj (hperform.symm.trans hcall))
  exact hu.performs hp

end

namespace Simulation

variable {M S N E O ME SE NE : Type} [Retained E] [Retained O] [Model M E O ME]
  [Scheduler S SE] [Monitor N M O NE]

/-! ### Stopped duties -/

omit [Retained E] [Retained O] [Model M E O ME] [Scheduler S SE] [Monitor N M O NE] in
theorem injectAt_stopped {sim : Simulation M S N E} {duty : DutyId}
    (hknown : sim.topology.contains duty = true) (hstopped : duty ∈ sim.stopped)
    (moment : Moment) (event : E) :
    sim.injectAt duty moment event = .ok (sim, .error ⟨event, sim.refusal duty⟩) := by
  by_cases hlive : sim.Live
  · rw [injectAt, refusal, if_neg (by simp [hlive.unpoisoned]), if_neg (not_not.mpr hlive.active),
      if_neg (by simpa using hknown), if_pos hstopped,
      if_pos ⟨hlive.unpoisoned, hlive.active⟩]
  · rw [injectAt_not_live hlive, refusal, if_neg fun hl => hlive ⟨hl.1, hl.2⟩]

/-- **A stopped duty is retired.** -/
theorem Sound.retired {sim : Simulation M S N E} (hs : sim.Sound) {duty : DutyId}
    (h : duty ∈ sim.stopped) : sim.Retired duty := by
  have hknown : sim.topology.contains duty = true := by
    obtain ⟨state, hstate, _⟩ := hs.stopped.mp h
    simpa [Topology.contains] using hs.keys.mp ⟨state, hstate⟩
  refine ⟨h, ?_, ?_, ?_, ?_, ?_⟩
  · intro token routed hmem he
    obtain ⟨entry, hlook, rfl⟩ := Timeline.mem_pending.mp hmem
    exact (hs.pending hlook).2.1 (he ▸ h)
  · intro built result hbuild key hmem he
    rw [buildReady_eq hs] at hbuild
    obtain ⟨rfl, -⟩ := Prod.mk.inj (Except.ok.inj hbuild)
    exact hs.not_mem_enabled h hmem he
  · intro started callback hattempt he
    exact hs.not_mem_enabled h ((attempt_iff hs).mp hattempt).2.enabled he
  · intro call event hcall
    exact exec_refused (injectAt_stopped hknown h · event) hcall
  · intro started callback hattempt ctx log result hrun before request reply after event hlog hsends
    have hb := ((attempt_iff hs).mp hattempt).2
    have hstart := hb.sound hs
    have hbegin : Transaction (E := E) (O := O) (started.context callback.metadata)
        (started.context callback.metadata) :=
      .begin hstart.wf hstart.measure rfl rfl rfl
    -- the send is answered by the context that the calls before it lead to
    have hcalls := Program.run_calls hrun
    rw [hlog, List.append_cons] at hcalls
    obtain ⟨next, hcalls, -⟩ := hcalls.split
    obtain ⟨mid, hbefore, hcall⟩ := hcalls.of_snoc
    have hframe := (hbegin.calls hbefore).frame
    have hstopped : duty ∈ mid.stopped := by
      rw [hframe.stopped]
      show duty ∈ started.stopped
      rwa [hb.frame]
    have hcontains : mid.topology.contains duty = true := by
      rw [hframe.topology]
      show started.topology.contains duty = true
      rwa [hb.frame]
    have hrefused := ActionContext.perform_stopped hcontains hstopped hsends
    obtain ⟨rfl, hreply⟩ := Prod.mk.inj (Except.ok.inj (hcall.symm.trans hrefused))
    exact ⟨next, hbefore, hcall, hreply⟩

/-! ### Committed stops -/

omit [Retained O] [Model M E O ME] [Scheduler S SE] [Monitor N M O NE] in
/-- A context commits unless its callback stops a duty that is still needed. -/
theorem commitContext_ok {ctx : ActionContext E O} {duty : DutyId} {turn : Turn}
    (h : turn.next = .stop → ctx.pendingFor duty = 0) :
    commitContext duty turn ctx = .ok (ctx.timeline, .ok ctx.observations) := by
  rw [commitContext, if_neg fun hn => hn.2 (h hn.1)]
  rfl

omit [Retained O] [Model M E O ME] [Scheduler S SE] [Monitor N M O NE] in
theorem commitContext_rejected {ctx : ActionContext E O} {duty : DutyId} {turn : Turn}
    {timeline : Timeline (Routed E)} {observations : List O}
    (hstop : turn.next = .stop) (hpending : ctx.pendingFor duty ≠ 0) :
    commitContext duty turn ctx ≠ .ok (timeline, .ok observations) := by
  rw [commitContext, if_pos ⟨hstop, hpending⟩]
  cases hdrop : ctx.drop with
  | error => simp [bind, Except.bind]
  | ok => simp [bind, Except.bind]

omit [Monitor N M O NE] in
/-- The commitment of a simulation whose next callback returns. -/
theorem commitment_eq {sim started : Simulation M S N E} {callback : Callback M E O ME}
    {ctx : ActionContext E O} {log : List (ContextCall E O × ContextReply E O)} {model : M}
    {turn : Turn} (hattempt : sim.attempt = some (started, callback))
    (hruns : Runs started callback ctx log model (.ok turn))
    (h : turn.next = .stop → ctx.pendingFor callback.metadata.key.duty = 0) :
    sim.commitment = some (callback.metadata, turn) := by
  simp only [commitment, hattempt, hruns.run, commitContext_ok h]

omit [Monitor N M O NE] in
/-- An aborted callback commits nothing. -/
theorem commitment_aborted {sim started : Simulation M S N E} {callback : Callback M E O ME}
    {ctx : ActionContext E O} {log : List (ContextCall E O × ContextReply E O)} {model : M}
    {result : Returned Turn ME} {r : StepReturn O ME NE SE}
    (hattempt : sim.attempt = some (started, callback))
    (hruns : Runs started callback ctx log model result)
    (habort : Abort callback.metadata ctx result r) : sim.commitment = none := by
  rw [commitment, hattempt]
  cases habort with
  | unwound | failed => simp only [hruns.run]
  | @stopRejected turn hstop hpending =>
    simp only [hruns.run]
    cases hcommit : commitContext callback.metadata.key.duty turn ctx with
    | error => rfl
    | ok outcome =>
      obtain ⟨timeline, failure | observations⟩ := outcome
      · rfl
      · exact absurd hcommit (commitContext_rejected hstop hpending)

/-- The duties that are stopped after the next step. -/
def stoppedNext (sim : Simulation M S N E) : Finset DutyId :=
  match sim.commitment with
  | none => sim.stopped
  | some (metadata, turn) =>
    if turn.next = .stop then insert metadata.key.duty sim.stopped else sim.stopped

/-- **How duties stop**: by the commitment of the step and in no other way. -/
theorem Transition.stopped {sim sim' : Simulation M S N E} {r : StepReturn O ME NE SE}
    (h : sim.Transition r sim') (hs : sim.Sound) : sim'.stopped = sim.stoppedNext := by
  rcases h.attempted hs with ⟨hnone, -, -, hsame, -⟩ |
    ⟨started, callback, ctx, log, model, result, timeline, hattempt, hruns, habort, _, rfl⟩ |
    ⟨started, callback, ctx, log, model, turn, updated, hattempt, hruns, hc, hf⟩
  · rw [stoppedNext, commitment, hnone]
    exact hsame
  · rw [stoppedNext, commitment_aborted hattempt hruns habort, halt_stopped]
    show started.stopped = sim.stopped
    rw [((attempt_iff hs).mp hattempt).2.frame]
  · have hstopped : started.stopped = sim.stopped := by
      rw [((attempt_iff hs).mp hattempt).2.frame]
    obtain ⟨state, _, hupdated⟩ := hc.result
    rw [stoppedNext, commitment_eq hattempt hruns hc.unneeded, hf.frame, hupdated, ← hstopped]

theorem subset_stoppedNext (sim : Simulation M S N E) : sim.stopped ⊆ sim.stoppedNext := by
  intro duty hmem
  rw [stoppedNext]
  split
  · exact hmem
  · split_ifs
    · exact Finset.mem_insert_of_mem hmem
    · exact hmem

/-- Stopped duties stay stopped. -/
theorem Executes.stopped {sim sim' : Simulation M S N E} {call : Call E}
    {reply : Reply E O ME NE SE} (h : sim.Executes call reply sim') (hs : sim.Sound) :
    sim.stopped ⊆ sim'.stopped := by
  cases h with
  | stepped ht =>
    rw [ht.stopped hs]
    exact subset_stoppedNext sim
  | injected _ hi =>
    cases hi with
    | rejected => exact fun _ hmem => hmem
    | admitted => exact fun _ hmem => hmem

/-- A duty that is stopped once is retired from then on. -/
theorem retired_forever {sim later : Simulation M S N E} {duty : DutyId}
    {tr : List (Call E × Reply E O ME NE SE)} (hs : sim.Sound) (h : duty ∈ sim.stopped)
    (hrun : Steps (system M S N E O ME SE NE).step sim tr later) : later.Retired duty := by
  have hlater : later.Sound ∧ duty ∈ later.stopped := by
    refine hrun.preserves (P := fun s => s.Sound ∧ duty ∈ s.stopped) ?_ ⟨hs, h⟩
    rintro u l v ⟨hu, hmem⟩ hstep
    have he := executes_of_exec hu hstep
    exact ⟨he.sound hu, he.stopped hu hmem⟩
  exact hlater.1.retired hlater.2

/-! ### What a step leaves -/

/-- **The exits of a step**: the reply of a live simulation tells its lifecycle. -/
theorem Transition.lifecycle {sim sim' : Simulation M S N E} {r : StepReturn O ME NE SE}
    (h : sim.Transition r sim') (hlive : sim.Live) :
    (sim'.phase, sim'.poisoned) = r.lifecycle := by
  have hphase := hlive.active
  have hflag := hlive.unpoisoned
  cases h with
  | poisoned hp => simp [hp] at hflag
  | inactive _ hi => exact absurd hphase hi
  | limited => exact Prod.ext rfl hflag
  | refused _ _ _ _ href =>
    cases href with
    | unwound => exact Prod.ext hphase rfl
    | failed | invalid => exact Prod.ext rfl hflag
  -- the choice and the set-up before a callback leave the phase and the flag alone
  | @rolledBack started callback ctx log model result timeline r _ hb _ ha =>
    have hphase' : started.phase = .active := by rwa [hb.frame]
    have hflag' : started.poisoned = false := by rwa [hb.frame]
    cases ha with
    | unwound => exact Prod.ext hphase' rfl
    | failed | stopRejected => exact Prod.ext rfl hflag'
  | @committed started callback ctx log model turn updated r sim' _ hb _ hc hf =>
    have hphase' : started.phase = .active := by rwa [hb.frame]
    have hflag' : started.poisoned = false := by rwa [hb.frame]
    have hupdated : updated.phase = .active ∧ updated.poisoned = false := by
      rw [hc.frame]
      exact ⟨hphase', hflag'⟩
    cases hf with
    | commitUnwound | monitorUnwound => exact Prod.ext hupdated.1 rfl
    | commitFailed | monitorFailed => exact Prod.ext rfl hupdated.2
    | accepted => exact Prod.ext hupdated.1 hupdated.2
  | completed => exact Prod.ext rfl hflag
  | finishRefused _ _ _ _ _ href =>
    cases href with
    | unwound => exact Prod.ext hphase rfl
    | failed => exact Prod.ext rfl hflag
  | quiescent => exact Prod.ext hphase hflag
  | timeLimited => exact Prod.ext rfl hflag
  | advanced => exact Prod.ext hphase hflag

omit [Retained O] [Model M E O ME] [Scheduler S SE] [Monitor N M O NE] in
/-- A commit as the source makes it: the context first, then the owner. -/
theorem Commits.updateOwner {started updated : Simulation M S N E} {callback : Callback M E O ME}
    {ctx : ActionContext E O} {model : M} {turn : Turn}
    (h : Commits started callback ctx model turn updated) :
    commitContext callback.metadata.key.duty turn ctx = .ok (ctx.timeline, .ok ctx.observations) ∧
      ({ started with model, timeline := ctx.timeline } : Simulation M S N E).updateOwner
        callback.metadata.key.duty turn callback.delivered.isSome = .ok updated := by
  obtain ⟨state, hstate, hupdated⟩ := h.result
  refine ⟨commitContext_ok h.unneeded, ?_⟩
  simp only [Simulation.updateOwner, hstate, hupdated]

/-- **What a panic leaves**, by the hook it came from. -/
theorem Transition.unwound {sim sim' : Simulation M S N E} {boundary : Boundary}
    (h : sim.Transition (.unwound boundary : StepReturn O ME NE SE) sim') (hs : sim.Sound) :
    sim.Unwound sim' boundary := by
  -- the scheduler, the callback and the monitor can panic, and nothing else does
  generalize hr : (.unwound boundary : StepReturn O ME NE SE) = r at h
  cases h with
  | poisoned | inactive | limited | completed | quiescent | timeLimited | advanced => cases hr
  | refused _ _ _ _ href =>
    cases href with
    | unwound =>
      cases hr
      rfl
    | failed | invalid => cases hr
  | @rolledBack started callback ctx log model result timeline r hlive hb hruns ha hrolled =>
    cases ha with
    | unwound =>
      cases hr
      have hstates : started.states = sim.states := by rw [hb.frame]
      have hstopped : started.stopped = sim.stopped := by rw [hb.frame]
      refine ⟨started, callback, ctx, log, model, (attempt_iff hs).mpr ⟨hlive, hb⟩, hruns.run,
        hb.timeline hs, ?_, hstates, hstopped⟩
      show ({ started with model, timeline, poisoned := true } : Simulation M S N E) = _
      rw [hrolled.result]
      rfl
    | failed | stopRejected => cases hr
  | committed hlive hb hruns hc hf =>
    obtain ⟨hcommit, hupdate⟩ := hc.updateOwner
    have hattempt := (attempt_iff hs).mpr ⟨hlive, hb⟩
    cases hf with
    | commitUnwound =>
      cases hr
      exact ⟨_, _, _, _, _, _, _, _, _, hattempt, hruns.run, hcommit, hupdate, rfl⟩
    | monitorUnwound =>
      cases hr
      exact ⟨_, _, _, _, _, _, _, _, _, hattempt, hruns.run, hcommit, hupdate, rfl⟩
    | commitFailed | monitorFailed | accepted => cases hr
  | finishRefused _ _ _ _ _ href =>
    cases href with
    | unwound =>
      cases hr
      rfl
    | failed => cases hr

/-! ### Finality -/

/-- **Stops and terminal states are final**: in every reachable simulation,
whatever model, scheduler and monitor do, and for every run that goes on from it. -/
theorem finality {sim : Simulation M S N E} (hreach : (system M S N E O ME SE NE).Reachable sim) :
    -- a duty stops only by a committed turn, and only when nothing is pending for it
    (∀ call sim' reply, sim.exec call = .ok (sim', reply) →
      ∀ duty, duty ∉ sim.stopped → duty ∈ sim'.stopped →
        (∃ metadata turn, call = .step ∧ sim.commitment = some (metadata, turn) ∧
          metadata.key.duty = duty ∧ turn.next = .stop) ∧
        ∀ token routed, (token, routed) ∈ sim'.timeline.pending → routed.target ≠ duty) ∧
    ∀ sim' r, sim.step = .ok (sim', r) →
      -- a committed stop is for good
      (∀ metadata turn, sim.commitment = some (metadata, turn) → turn.next = .stop →
        ∀ tr later, Steps (system M S N E O ME SE NE).step sim' tr later →
          later.Retired metadata.key.duty) ∧
      -- the reply tells the lifecycle, and every lifecycle but the first is for good
      (sim.Live → (sim'.phase, sim'.poisoned) = r.lifecycle) ∧
      (r.lifecycle ≠ (.active, false) → sim'.Final) ∧
      -- a panic leaves what its hook may leave
      ∀ boundary, r = .unwound boundary → sim.Unwound sim' boundary := by
  have hs := reachable_sound hreach
  refine ⟨fun call sim' reply hexec duty hbefore hafter => ?_, fun sim' r hstep => ?_⟩
  · have he := executes_of_exec hs hexec
    have hsound := he.sound hs
    refine ⟨?_, (hsound.retired hafter).unneeded⟩
    cases he with
    | stepped ht =>
      rw [ht.stopped hs, stoppedNext] at hafter
      cases hcommit : sim.commitment with
      | none => simp [hcommit, hbefore] at hafter
      | some committed =>
        obtain ⟨metadata, turn⟩ := committed
        simp only [hcommit] at hafter
        split_ifs at hafter with hstop
        · have hduty := (Finset.mem_insert.mp hafter).resolve_right hbefore
          exact ⟨metadata, turn, rfl, rfl, hduty.symm, hstop⟩
        · exact absurd hafter hbefore
    | injected _ hi =>
      cases hi with
      | rejected | admitted => exact absurd hafter hbefore
  · obtain ⟨sim₁, r₁, hstep₁, ht⟩ : ∃ sim₁, ∃ r₁ : StepReturn O ME NE SE,
        sim.step = .ok (sim₁, r₁) ∧ sim.Transition r₁ sim₁ := step_cases hs
    obtain ⟨rfl, rfl⟩ := Prod.mk.inj (Except.ok.inj (hstep₁.symm.trans hstep))
    refine ⟨fun metadata turn hcommit hstop tr later hrun => ?_, ht.lifecycle, fun hterminal => ?_,
      fun boundary hr => ?_⟩
    · refine retired_forever (ht.sound hs) ?_ hrun
      rw [ht.stopped hs, stoppedNext, hcommit]
      simp only [if_pos hstop, Finset.mem_insert_self]
    · refine final_of_not_live fun hlive' => hterminal ?_
      by_cases hlive : sim.Live
      · rw [← ht.lifecycle hlive, hlive'.active, hlive'.unpoisoned]
      · obtain ⟨hsame, -⟩ := Prod.mk.inj (Except.ok.inj (hstep.symm.trans (step_not_live hlive)))
        exact absurd (hsame ▸ hlive') hlive
    · subst hr
      exact ht.unwound hs

/-- A simulation of one duty that stops in its first turn. -/
def stoppingWorld : Simulation (Playback Unit Unit Empty) Fifo NoopMonitor Unit :=
  Playback.world [] ⟨⟩ ⟨⟩

/-- The duty stops, the next step completes, and both are for good. -/
theorem finality_completed :
    (∀ tr later, Steps (system (Playback Unit Unit Empty) Fifo NoopMonitor Unit Unit Empty Empty
        Empty).step (stoppingWorld.after [.step]) tr later → later.Retired 1) ∧
    (stoppingWorld.after [.step, .step]).phase = .completed ∧
    (stoppingWorld.after [.step, .step]).Final := by
  have hstart := Playback.recorded_world ([] : List (Program Unit Unit (Returned Turn Empty)))
    Fifo.mk NoopMonitor.mk []
  have hnext := Playback.recorded_world ([] : List (Program Unit Unit (Returned Turn Empty)))
    Fifo.mk NoopMonitor.mk [.step]
  have hstop : ∃ r, stoppingWorld.step = .ok (stoppingWorld.after [.step], r) := ⟨_, rfl⟩
  have hcomplete : ∃ snapshot, (stoppingWorld.after [.step]).step
      = .ok (stoppingWorld.after [.step, .step], .ok (.completed snapshot)) := ⟨_, rfl⟩
  obtain ⟨r, hstop⟩ := hstop
  obtain ⟨snapshot, hcomplete⟩ := hcomplete
  obtain ⟨hretired, -⟩ := (finality hstart.ofRecording.reachable).2 _ _ hstop
  obtain ⟨-, -, hfinal, -⟩ := (finality hnext.ofRecording.reachable).2 _ _ hcomplete
  exact ⟨hretired ⟨0, .turn 1, 0, none⟩ ⟨0, .stop⟩ (by decide +kernel) rfl, by decide +kernel,
    hfinal nofun⟩

/-! ### The checks that come first -/

/-- A turn that sends to the stopped duty 1, before and after its one effect. -/
def lateSends : Program Unit Unit (Returned Turn Empty) :=
  .call (.sendAfter 1 U64.max ()) fun _ => .call (.send 2 ()) fun _ => .call (.send 1 ()) fun _ =>
    .done (.ok ⟨0, .wake⟩)

/-- Limits that leave every action one effect. -/
def oneEffect : SimulationLimits :=
  { SimulationLimits.new ⟨⟨8, U64.eight_ne_zero⟩, 64⟩ with
    effectsPerAction := ⟨1, U64.one_ne_zero⟩ }

/-- Two duties past the virtual origin; duty 1 stops before duty 2 sends to it. -/
def overflowWorld : Simulation (Playback Unit Unit Empty) Fifo NoopMonitor Unit :=
  { (Playback.world [.done (.ok ⟨0, .stop⟩), lateSends] ⟨⟩ ⟨⟩ :
      Simulation (Playback Unit Unit Empty) Fifo NoopMonitor Unit) with
    topology := ⟨[1, 2], by decide, by simp⟩
    states := initialStates ⟨[1, 2], by decide, by simp⟩
    timeline := .atWithMeasure 7 1 ⟨⟨8, U64.eight_ne_zero⟩, 64⟩ Retained.retainedBytes
    limits := oneEffect }

/-- **Overflow and the effect budget are found first**: duty 1 has stopped, yet
an injection and two sends to it are not rejected as such; the simulation has
completed, yet the injection is not rejected as inactive, and one that is
rejected as inactive is not rejected for its target. -/
theorem overflow_found_first :
    withParts 7 1 ⟨[.done (.ok ⟨0, .stop⟩), lateSends]⟩ ⟨[1, 2], by decide, by simp⟩ oneEffect
      Fifo.mk NoopMonitor.mk = .ok (.ok overflowWorld) ∧
    overflowWorld.commitment = some (⟨0, .turn 1, 1, none⟩, ⟨0, .stop⟩) ∧
    (overflowWorld.after [.step]).injectAfter 1 U64.max ()
      = .ok (overflowWorld.after [.step], .error ⟨(), .timeOverflow 1 U64.max⟩) ∧
    ((overflowWorld.after [.step]).attempt.bind fun a =>
      (a.2.program.run (a.1.context a.2.metadata)).toOption.map fun o =>
        o.2.1.map fun l => (l.1.sends, l.2.rejection)) = some [
          (some (1, ()), some (.timeOverflow 1 U64.max)), (some (2, ()), none),
          (some (1, ()), some (.effectCapacity ⟨1, by decide⟩))] ∧
    ((overflowWorld.after [.step, .step, .step]).step.toOption.map fun o => o.2.lifecycle)
      = some (.completed, false) ∧
    (overflowWorld.after [.step, .step, .step, .step]).injectAfter 1 U64.max ()
      = .ok (overflowWorld.after [.step, .step, .step, .step],
          .error ⟨(), .timeOverflow 1 U64.max⟩) ∧
    (overflowWorld.after [.step, .step, .step, .step]).inject 1 ()
      = .ok (overflowWorld.after [.step, .step, .step, .step], .error ⟨(), .inactive .completed⟩) := by
  have hoverflow : ∀ calls, (overflowWorld.after calls).now = 1 →
      (overflowWorld.after calls).injectAfter 1 U64.max ()
        = .ok (overflowWorld.after calls, .error ⟨(), .timeOverflow 1 U64.max⟩) := by
    intro calls hnow
    rw [injectAfter, hnow]
    rfl
  refine ⟨rfl, by decide +kernel, hoverflow _ (by decide +kernel), by decide +kernel,
    by decide +kernel, hoverflow _ (by decide +kernel), ?_⟩
  have hphase : (overflowWorld.after [.step, .step, .step, .step]).phase = .completed := by
    decide +kernel
  have hunpoisoned : (overflowWorld.after [.step, .step, .step, .step]).poisoned = false := by
    decide +kernel
  have hover : ¬ (overflowWorld.after [.step, .step, .step, .step]).Live :=
    fun hlive => by simp [hlive.active] at hphase
  rw [inject, injectAt_not_live hover, lifecycleFailure, hunpoisoned, hphase]
  rfl

end Simulation

end Calandria
