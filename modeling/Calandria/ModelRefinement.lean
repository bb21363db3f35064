/-
Models are interchangeable.

The kernel learns about a model only what its callbacks ask of the context and what they
hand back.  So a relation between the states of two models that their callbacks keep, with
the same calls and the same results, is invisible from outside.

* `Program.Related` — programs that make the same calls, whatever they are answered;
* `Refines` — a relation that the callbacks of two models keep;
* `exec_matches` — then a call on one simulation is matched by the same call on the other;
* `models_agree` — and the two have the same runs;
* `Counting` — a model that also counts its callbacks, for one.
-/
import Calandria.ReplayCompleteness

namespace Calandria

variable {E O ME NE SE α β : Type}

/-! ### Related callbacks -/

/-- Programs that make the same calls, whatever they are answered, and hand back related
results. -/
inductive Program.Related (R : α → β → Prop) : Program E O α → Program E O β → Prop
  | done {a b} : R a b → Related R (.done a) (.done b)
  | call {request next next'} : (∀ reply, Related R (next reply) (next' reply)) →
      Related R (.call request next) (.call request next')

/-- What two runs that go the same way leave. -/
inductive Program.Agree (R : α → β → Prop) :
    Except Panic (ActionContext E O × List (ContextCall E O × ContextReply E O) × α) →
    Except Panic (ActionContext E O × List (ContextCall E O × ContextReply E O) × β) → Prop
  | error {panic} : Agree R (.error panic) (.error panic)
  | ok {context log a b} : R a b → Agree R (.ok (context, log, a)) (.ok (context, log, b))

theorem Program.Related.run [Retained E] [Retained O] {R : α → β → Prop} {p : Program E O α}
    {q : Program E O β} (h : p.Related R q) (context : ActionContext E O) :
    Program.Agree R (p.run context) (q.run context) := by
  induction h generalizing context with
  | done hresult => exact .ok hresult
  | @call request next next' _ ih =>
    rw [Program.run, Program.run]
    cases context.perform request with
    | error => exact .error
    | ok o =>
      obtain ⟨context', reply⟩ := o
      have hrest := ih reply context'
      simp only [bind, Except.bind]
      revert hrest
      generalize (next reply).run context' = left
      generalize (next' reply).run context' = right
      intro hrest
      cases hrest with
      | error => exact .error
      | ok hresult => exact .ok hresult

/-- Related models beside the same outcome. -/
def Handed {M M' : Type} (R : M → M' → Prop) (o : M × Returned Turn ME)
    (o' : M' × Returned Turn ME) : Prop :=
  R o.1 o'.1 ∧ o.2 = o'.2

/-- A relation that the callbacks of two models keep. -/
structure Refines {M M' : Type} [Model M E O ME] [Model M' E O ME] (R : M → M' → Prop) :
    Prop where
  turn : ∀ {model model'}, R model model' → ∀ duty now id,
    (Model.turn model duty now id : Program E O _).Related (Handed R) (Model.turn model' duty now id)
  deliver : ∀ {model model'}, R model model' → ∀ duty (delivery : Delivery E) now id,
    (Model.deliver model duty delivery now id : Program E O _).Related (Handed R)
      (Model.deliver model' duty delivery now id)

/-- A monitor that looks at the model only up to the relation. -/
def Blind {M M' : Type} (N O : Type) [Monitor N M O NE] [Monitor N M' O NE]
    (R : M → M' → Prop) : Prop :=
  ∀ (monitor : N) (view : SimulationView M) (model' : M') (record : ActionRecord O),
    R view.model model' → Monitor.afterAction monitor view record
      = Monitor.afterAction monitor (⟨model', view.topology, view.states, view.snapshot⟩ :
        SimulationView M') record

namespace Simulation

variable {M M' S N : Type}

/-- The same simulation of another model. -/
def withModel (sim : Simulation M S N E) (model' : M') : Simulation M' S N E :=
  { sim with model := model' }

/-- Two simulations that are alike up to the model. -/
def Alike (R : M → M' → Prop) (sim : Simulation M S N E) (sim' : Simulation M' S N E) : Prop :=
  ∃ last, R sim.model last ∧ sim' = sim.withModel last

/-- The same outcome over related models. -/
inductive Matches (R : M → M' → Prop) :
    Except Panic (Simulation M S N E × α) → Except Panic (Simulation M' S N E × α) → Prop
  | error {panic} : Matches R (.error panic) (.error panic)
  | ok {sim model' a} :
      R sim.model model' → Matches R (.ok (sim, a)) (.ok (sim.withModel model', a))

/-- What does not look at the model matches itself. -/
theorem Matches.of_map {R : M → M' → Prop} {sim : Simulation M S N E} {model' : M'}
    (hR : R sim.model model') {left : Except Panic (Simulation M S N E × α)}
    {right : Except Panic (Simulation M' S N E × α)}
    (hself : left = left.map fun o => (o.1.withModel sim.model, o.2))
    (hright : right = left.map fun o => (o.1.withModel model', o.2)) : Matches R left right := by
  rw [hright]
  cases left with
  | error => exact .error
  | ok o =>
    have hmodel : o.1 = o.1.withModel sim.model := (Prod.mk.inj (Except.ok.inj hself)).1
    refine .ok ?_
    rw [hmodel]
    exact hR

/-! ### One step -/

theorem pushDeliveries_withModel (sim : Simulation M S N E) (model' : M')
    (tokens : List EventToken) (ready : ReadySet) :
    (sim.withModel model').pushDeliveries tokens ready = sim.pushDeliveries tokens ready := by
  induction tokens generalizing ready with
  | nil => rfl
  | cons token rest ih =>
    rw [pushDeliveries, pushDeliveries]
    simp only [ih]
    rfl

theorem buildReady_withModel (sim : Simulation M S N E) (model' : M') :
    (sim.withModel model').buildReady
      = sim.buildReady.map fun o => (o.1.withModel model', o.2) := by
  rw [buildReady, buildReady, pushDeliveries_withModel]
  show (sim.pushDeliveries (sim.timeline.tokensAt sim.now) [] >>= _)
    = Except.map _ (sim.pushDeliveries (sim.timeline.tokensAt sim.now) [] >>= _)
  cases sim.pushDeliveries (sim.timeline.tokensAt sim.now) [] with
  | error => rfl
  | ok o =>
    obtain ⟨ready, built⟩ := o
    cases built <;> rfl

theorem buildReady_matches {R : M → M' → Prop} {sim : Simulation M S N E} {model' : M'}
    (hR : R sim.model model') : Matches R sim.buildReady (sim.withModel model').buildReady :=
  .of_map hR (sim.buildReady_withModel sim.model) (sim.buildReady_withModel model')

theorem enforceActionLimits_withModel (sim : Simulation M S N E) (model' : M') :
    ((sim.withModel model').enforceActionLimits : Except (StepError ME NE SE) Unit)
      = sim.enforceActionLimits := rfl

section

variable [Scheduler S SE]

theorem advanceOrFinish_withModel (sim : Simulation M S N E) (model' : M') :
    ((sim.withModel model').advanceOrFinish :
        Except Panic (Simulation M' S N E × StepReturn O ME NE SE))
      = sim.advanceOrFinish.map fun o => (o.1.withModel model', o.2) := by
  rw [advanceOrFinish, advanceOrFinish,
    show (sim.withModel model').stopped = sim.stopped from rfl,
    show (sim.withModel model').topology = sim.topology from rfl,
    show (sim.withModel model').timeline = sim.timeline from rfl,
    show (sim.withModel model').now = sim.now from rfl,
    show (sim.withModel model').limits = sim.limits from rfl,
    show (sim.withModel model').nextDeadline = sim.nextDeadline from rfl]
  by_cases hall : sim.stopped.card = sim.topology.len
  · rw [if_pos hall, if_pos hall]
    cases sim.timeline.pending.head? with
    | some entry => rfl
    | none =>
      simp only [validateSchedulerFinish,
        show (sim.withModel model').scheduler = sim.scheduler from rfl]
      cases Scheduler.finished sim.scheduler with
      | mk scheduler verdict => cases verdict <;> rfl
  · rw [if_neg hall, if_neg hall]
    cases earliest sim.timeline.nextAt sim.nextDeadline with
    | none => rfl
    | some next =>
      simp only
      split_ifs
      · rfl
      · rfl
      · cases sim.timeline.advanceTo next <;> rfl

theorem selectAction_withModel (sim : Simulation M S N E) (model' : M') :
    ((sim.withModel model').selectAction : Except Panic (Simulation M' S N E ×
        (StepReturn O ME NE SE ⊕ ActionKey × ActionId)))
      = sim.selectAction.map fun o => (o.1.withModel model', o.2) := by
  rw [selectAction, selectAction, show (sim.withModel model').scheduler = sim.scheduler from rfl,
    show (sim.withModel model').now = sim.now from rfl,
    show (sim.withModel model').ready = sim.ready from rfl]
  cases Scheduler.choose sim.scheduler sim.now sim.ready with
  | mk scheduler verdict =>
    cases verdict with
    | panicked | err => rfl
    | ok selected =>
      simp only
      by_cases hready : ReadySet.contains sim.ready selected
      · simp only [hready, allocateAction,
          show (sim.withModel model').nextAction = sim.nextAction from rfl,
          show (sim.withModel model').actions = sim.actions from rfl,
          show (sim.withModel model').actionsAtMoment = sim.actionsAtMoment from rfl]
        cases sim.nextAction with
        | none => rfl
        | some raw =>
          simp only
          cases sim.actions.increment with
          | error => rfl
          | ok actions => cases sim.actionsAtMoment.increment <;> rfl
      · simp only [hready]
        rfl

section

variable [Monitor N M O NE] [Monitor N M' O NE] {R : M → M' → Prop}

/-- The monitor sees both alike. -/
theorem finishAction_matches (hblind : Blind N O R) {sim : Simulation M S N E} {model' : M'}
    (hR : R sim.model model') (metadata : ActionMeta) (turn : Turn) (observations : List O) :
    Matches R
      (.ok (sim.finishAction metadata turn observations : _ × StepReturn O ME NE SE))
      (.ok ((sim.withModel model').finishAction metadata turn observations)) := by
  rw [finishAction, finishAction, show (sim.withModel model').scheduler = sim.scheduler from rfl]
  cases Scheduler.committed sim.scheduler metadata turn with
  | mk scheduler verdict =>
    cases verdict with
    | panicked | err => exact .ok hR
    | ok =>
      obtain ⟨monitor, verdict, hleft⟩ : ∃ monitor verdict,
          Monitor.afterAction sim.monitor ({ sim with scheduler } : Simulation M S N E).view
            (⟨metadata, turn, observations⟩ : ActionRecord O) = (monitor, verdict) := ⟨_, _, rfl⟩
      have hright : Monitor.afterAction (sim.withModel model').monitor
          ({ sim.withModel model' with scheduler } : Simulation M' S N E).view
          (⟨metadata, turn, observations⟩ : ActionRecord O) = (monitor, verdict) :=
        (hblind sim.monitor sim.view model' ⟨metadata, turn, observations⟩ hR).symm.trans hleft
      simp only [hleft, hright]
      cases verdict <;> exact .ok hR

omit [Scheduler S SE] [Monitor N M O NE] [Monitor N M' O NE] in
theorem updateOwner_withModel (sim : Simulation M S N E) (model' : M') (duty : DutyId) (turn : Turn)
    (delivery : Bool) :
    (sim.withModel model').updateOwner duty turn delivery
      = (sim.updateOwner duty turn delivery).map (·.withModel model') := by
  rw [updateOwner, updateOwner, show (sim.withModel model').states = sim.states from rfl]
  cases sim.states.get? duty <;> rfl

omit [Scheduler S SE] [Monitor N M O NE] [Monitor N M' O NE] in
theorem updateOwner_model {sim updated : Simulation M S N E} {duty : DutyId} {turn : Turn}
    {delivery : Bool} (h : sim.updateOwner duty turn delivery = .ok updated) :
    updated.model = sim.model := by
  rw [updateOwner] at h
  cases hstate : sim.states.get? duty with
  | none => simp [hstate] at h
  | some state =>
    rw [hstate] at h
    rw [← Except.ok.inj h]

variable [Retained E] [Retained O]

/-- Callbacks of the same action that go the same way commit, or roll back, alike. -/
theorem runCallback_matches (hblind : Blind N O R) (sim : Simulation M S N E) (first' : M')
    (metadata : ActionMeta) (delivered : Option (EventToken × Routed E))
    {program : Program E O (M × Returned Turn ME)} {program' : Program E O (M' × Returned Turn ME)}
    (h : program.Related (Handed R) program') :
    Matches R
      (sim.runCallback ⟨metadata, delivered, program⟩ :
        Except Panic (Simulation M S N E × StepReturn O ME NE SE))
      ((sim.withModel first').runCallback ⟨metadata, delivered, program'⟩) := by
  have hrun := h.run (sim.context metadata)
  rw [runCallback, runCallback,
    show ((sim.withModel first').context metadata : ActionContext E O)
      = sim.context metadata from rfl]
  revert hrun
  generalize program.run (sim.context metadata) = left
  generalize program'.run (sim.context metadata) = right
  intro hrun
  cases hrun with
  | error => exact .error
  | @ok context log a b hresult =>
    obtain ⟨model, result⟩ := a
    obtain ⟨model', result'⟩ := b
    obtain ⟨hmodel, rfl⟩ : R model model' ∧ result = result' := hresult
    simp only [bind, Except.bind]
    cases result with
    | panicked | err =>
      cases context.drop with
      | error => exact .error
      | ok timeline => exact .ok hmodel
    | ok turn =>
      simp only
      cases commitContext metadata.key.duty turn context with
      | error => exact .error
      | ok committed =>
        obtain ⟨timeline, result⟩ := committed
        cases result with
        | error => exact .ok hmodel
        | ok observations =>
          simp only
          have hother : ({ sim.withModel first' with model := model', timeline } :
              Simulation M' S N E).updateOwner metadata.key.duty turn delivered.isSome
              = (({ sim with model, timeline } : Simulation M S N E).updateOwner metadata.key.duty
                turn delivered.isSome).map (·.withModel model') :=
            ({ sim with model, timeline } : Simulation M S N E).updateOwner_withModel model' ..
          rw [hother]
          cases hupdate : ({ sim with model, timeline } : Simulation M S N E).updateOwner
              metadata.key.duty turn delivered.isSome with
          | error => exact .error
          | ok updated =>
            refine finishAction_matches hblind ?_ metadata turn observations
            rw [updateOwner_model hupdate]
            exact hmodel

variable [Model M E O ME] [Model M' E O ME]

theorem executeSelected_matches (hblind : Blind N O R) (hrefines : Refines (E := E) (O := O) R)
    {sim : Simulation M S N E} {model' : M'} (hR : R sim.model model') (key : ActionKey)
    (id : ActionId) :
    Matches R (sim.executeSelected key id : Except Panic (_ × StepReturn O ME NE SE))
      ((sim.withModel model').executeSelected key id) := by
  obtain ⟨duty, kind⟩ := key
  cases kind with
  | turn =>
    exact runCallback_matches hblind sim model' ⟨id, ⟨duty, .turn⟩, sim.now, none⟩ none
      (hrefines.turn hR duty sim.now id)
  | delivery token =>
    simp only [executeSelected, executeDelivery, deliveryCallback,
      show (sim.withModel model').timeline = sim.timeline from rfl]
    cases sim.timeline.cancel token with
    | error => exact .error
    | ok o =>
      obtain ⟨timeline, removed⟩ := o
      cases removed with
      | none => exact .ok hR
      | some routed =>
        simp only [bind, Except.bind]
        by_cases htarget : routed.target ≠ duty
        · rw [if_pos htarget, if_pos htarget]
          exact .ok hR
        · rw [if_neg htarget, if_neg htarget]
          exact runCallback_matches hblind { sim with timeline } model' _ _
            (hrefines.deliver hR duty ⟨token, routed.event⟩ _ id)

/-- **One step** of the two simulations. -/
theorem step_matches (hblind : Blind N O R) (hrefines : Refines (E := E) (O := O) R)
    {sim : Simulation M S N E} {model' : M'} (hR : R sim.model model') : Matches R
      (sim.step : Except Panic (_ × StepReturn O ME NE SE)) (sim.withModel model').step := by
  rw [step, step, show (sim.withModel model').poisoned = sim.poisoned from rfl,
    show (sim.withModel model').phase = sim.phase from rfl]
  split_ifs
  · exact .ok hR
  · exact .ok hR
  · have hbuilt := buildReady_matches hR
    revert hbuilt
    generalize sim.buildReady = left
    generalize (sim.withModel model').buildReady = right
    intro hbuilt
    cases hbuilt with
    | error => exact .error
    | @ok built model' result hR =>
      cases result with
      | error => exact .ok hR
      | ok =>
        simp only [bind, Except.bind]
        rw [show (built.withModel model').ready = built.ready from rfl]
        by_cases hempty : built.ready.isEmpty
        · rw [if_pos hempty, if_pos hempty]
          exact .of_map hR (built.advanceOrFinish_withModel built.model)
            (built.advanceOrFinish_withModel model')
        · rw [if_neg hempty, if_neg hempty, enforceActionLimits_withModel]
          cases (built.enforceActionLimits : Except (StepError ME NE SE) Unit) with
          | error => exact .ok hR
          | ok =>
            have hselect : Matches R (built.selectAction : Except Panic (Simulation M S N E ×
                (StepReturn O ME NE SE ⊕ ActionKey × ActionId)))
                (built.withModel model').selectAction :=
              .of_map hR (built.selectAction_withModel built.model)
                (built.selectAction_withModel model')
            simp only
            revert hselect
            generalize (built.selectAction : Except Panic (Simulation M S N E ×
                (StepReturn O ME NE SE ⊕ ActionKey × ActionId))) = left
            generalize ((built.withModel model').selectAction : Except Panic (Simulation M' S N E ×
                (StepReturn O ME NE SE ⊕ ActionKey × ActionId))) = right
            intro hselect
            cases hselect with
            | error => exact .error
            | @ok selected model' choice hR =>
              cases choice with
              | inl result => exact .ok hR
              | inr chosen => exact executeSelected_matches hblind hrefines hR chosen.1 chosen.2

/-! ### Calls and runs -/

omit [Scheduler S SE] [Monitor N M O NE] [Monitor N M' O NE] [Retained E] [Retained O]
  [Model M E O ME] [Model M' E O ME] in
theorem injectAt_withModel (sim : Simulation M S N E) (model' : M') (target : DutyId)
    (moment : Moment) (event : E) :
    (sim.withModel model').injectAt target moment event
      = (sim.injectAt target moment event).map fun o => (o.1.withModel model', o.2) := by
  rw [injectAt, injectAt, show (sim.withModel model').poisoned = sim.poisoned from rfl,
    show (sim.withModel model').phase = sim.phase from rfl,
    show (sim.withModel model').topology = sim.topology from rfl,
    show (sim.withModel model').stopped = sim.stopped from rfl,
    show (sim.withModel model').limits = sim.limits from rfl,
    show (sim.withModel model').timeline = sim.timeline from rfl]
  split_ifs
  any_goals rfl
  cases sim.timeline.scheduleAt moment ⟨target, none, event⟩ with
  | error => rfl
  | ok o =>
    obtain ⟨timeline, result⟩ := o
    cases result <;> rfl

/-- **One call** on the two simulations. -/
theorem exec_matches (hblind : Blind N O R) (hrefines : Refines (E := E) (O := O) R)
    {sim : Simulation M S N E} {model' : M'} (hR : R sim.model model') (call : Call E) :
    Matches R (sim.exec call : Except Panic (_ × Reply E O ME NE SE))
      ((sim.withModel model').exec call) := by
  have hinject : ∀ target moment event, Matches R
      ((sim.injectAt target moment event).bind fun o =>
        (.ok (o.1, .injected o.2) : Except Panic (_ × Reply E O ME NE SE)))
      (((sim.withModel model').injectAt target moment event).bind fun o =>
        .ok (o.1, .injected o.2)) := by
    intro target moment event
    have hsame : Matches R (sim.injectAt target moment event)
        ((sim.withModel model').injectAt target moment event) :=
      .of_map hR (sim.injectAt_withModel sim.model target moment event)
        (sim.injectAt_withModel model' target moment event)
    revert hsame
    generalize sim.injectAt target moment event = left
    generalize (sim.withModel model').injectAt target moment event = right
    intro hsame
    cases hsame with
    | error => exact .error
    | ok hR => exact .ok hR
  cases call with
  | step =>
    have hstep := step_matches hblind hrefines hR
    rw [exec, exec]
    revert hstep
    generalize (sim.step : Except Panic (_ × StepReturn O ME NE SE)) = left
    generalize ((sim.withModel model').step : Except Panic (_ × StepReturn O ME NE SE)) = right
    intro hstep
    cases hstep with
    | error => exact .error
    | ok hR => exact .ok hR
  | inject target event => exact hinject target sim.now event
  | injectAfter target delay event =>
    rw [exec, exec, injectAfter, injectAfter, show (sim.withModel model').now = sim.now from rfl]
    cases sim.now.checkedAdd delay with
    | none => exact .ok hR
    | some moment => exact hinject target moment event
  | injectAt target moment event => exact hinject target moment event

/-- **Models are interchangeable.**  If a relation between the states of two models is kept by
their callbacks, which make the same calls and hand back the same results, and the monitor
sees the model only up to the relation, then the two simulations have the same runs: whatever
is called on one, the other gives the same replies, and they stay alike up to the model. -/
theorem models_agree (hblind : Blind N O R) (hrefines : Refines (E := E) (O := O) R)
    {start : Simulation M S N E} {start' : Simulation M' S N E} (hstart : Alike R start start')
    (tr : List (Call E × Reply E O ME NE SE)) :
    (∀ sim, Steps (system M S N E O ME SE NE).step start tr sim →
      ∃ sim', Steps (system M' S N E O ME SE NE).step start' tr sim' ∧ Alike R sim sim') ∧
    ∀ sim', Steps (system M' S N E O ME SE NE).step start' tr sim' →
      ∃ sim, Steps (system M S N E O ME SE NE).step start tr sim ∧ Alike R sim sim' := by
  have forward : ∀ {u : Simulation M S N E} {l : Call E × Reply E O ME NE SE} {v}
      {w : Simulation M' S N E}, Alike R u w → (system M S N E O ME SE NE).step u l v →
      ∃ w', (system M' S N E O ME SE NE).step w l w' ∧ Alike R v w' := by
    rintro u ⟨call, reply⟩ v _ ⟨last, hlast, rfl⟩ hstep
    have hexec : u.exec call = .ok (v, reply) := hstep
    have hmatch : Matches R (u.exec call : Except Panic (_ × Reply E O ME NE SE)) _ :=
      exec_matches hblind hrefines hlast call
    rw [hexec] at hmatch
    generalize hother : ((u.withModel last).exec call : Except Panic (_ × Reply E O ME NE SE))
      = other at hmatch
    cases hmatch with
    | @ok _ next _ hnext => exact ⟨v.withModel next, hother, next, hnext, rfl⟩
  have backward : ∀ {w : Simulation M' S N E} {l : Call E × Reply E O ME NE SE} {w'}
      {u : Simulation M S N E}, flip (Alike R) w u → (system M' S N E O ME SE NE).step w l w' →
      ∃ v, (system M S N E O ME SE NE).step u l v ∧ flip (Alike R) w' v := by
    rintro _ ⟨call, reply⟩ w' u ⟨last, hlast, rfl⟩ hstep
    have hexec : (u.withModel last).exec call = .ok (w', reply) := hstep
    have hmatch : Matches R (u.exec call : Except Panic (_ × Reply E O ME NE SE)) _ :=
      exec_matches hblind hrefines hlast call
    rw [hexec] at hmatch
    generalize hother : (u.exec call : Except Panic (_ × Reply E O ME NE SE)) = other at hmatch
    cases hmatch with
    | @ok v next _ hnext => exact ⟨v, hother, next, hnext, rfl⟩
  constructor
  · intro sim hrun
    refine hrun.simulate ?_ hstart
    exact forward
  · intro sim' hrun
    show ∃ sim, Steps _ start tr sim ∧ flip (Alike R) sim' sim
    refine hrun.simulate ?_ hstart
    exact backward

end

end

/-! ### A model that counts its calls -/

/-- A model beside the number of callbacks it has run. -/
structure Counting (M : Type) where
  inner : M
  calls : Nat

/-- One more callback has run. -/
def Counting.wrap (model : Counting M) (o : M × Returned Turn ME) : Counting M × Returned Turn ME :=
  (⟨o.1, model.calls + 1⟩, o.2)

instance Counting.model [Model M E O ME] : Model (Counting M) E O ME where
  turn model duty now id := (Model.turn model.inner duty now id).map model.wrap
  deliver model duty delivery now id :=
    (Model.deliver model.inner duty delivery now id).map model.wrap

/-- A program makes the calls it makes, whatever becomes of its result. -/
theorem Program.related_map {R : α → β → Prop} {f : α → β} (hf : ∀ a, R a (f a)) :
    ∀ p : Program E O α, p.Related R (p.map f)
  | .done a => .done (hf a)
  | .call _ next => .call fun reply => related_map hf (next reply)

theorem Counting.refines [Model M E O ME] :
    Refines (E := E) (O := O) fun model (counted : Counting M) => counted.inner = model := by
  constructor
  · rintro _ counted rfl duty now id
    exact Program.related_map (fun _ => ⟨rfl, rfl⟩) _
  · rintro _ counted rfl duty delivery now id
    exact Program.related_map (fun _ => ⟨rfl, rfl⟩) _

/-- A model, and the one that counts its calls, over two actions. -/
theorem models_agree_counted :
    let start : Simulation (Playback Unit Unit Empty) Fifo NoopMonitor Unit :=
      Playback.world [.done (.ok ⟨1, .now⟩)] Fifo.mk NoopMonitor.mk
    ∃ sim', Steps (system (Counting (Playback Unit Unit Empty)) Fifo NoopMonitor Unit Unit Empty
        Empty Empty).step (start.withModel ⟨start.model, 0⟩)
        ((start.history [.step, .step]).map Prod.snd) sim' ∧
      Alike (fun model (counted : Counting _) => counted.inner = model)
        (start.after [.step, .step]) sim' := by
  intro start
  exact (models_agree (fun _ _ _ _ _ => rfl) Counting.refines ⟨⟨start.model, 0⟩, rfl, rfl⟩ _).1 _
    (steps_after start [.step, .step])

end Simulation

end Calandria
