/-
The causal trace.

What a run commits is a causal log, whatever model, scheduler and monitor it
runs with: the entries are numbered by their action ids, in order of their
moments, and a delivery names the action that sent it (`Chronicle`).  A rolled
back action takes an id too, but it ends the simulation, so it leaves no gap.

A fresh trace keeps the first entries of that log (`Trace.Records`), with one
exception: the scheduler validates a committed action before the monitor sees
it, and an action it refuses is not recorded, although it cannot be rolled back
any more.  It is the last that the simulation commits.
-/
import Calandria.CausalLog
import Calandria.Finality
import Calandria.Ledger
import Calandria.ReplayCompleteness
import Calandria.RunBound
import Mathlib.Data.List.Flatten

namespace Calandria

/-! ### Entries -/

/-- The token of the event that an action delivered. -/
def TraceEntry.delivered (entry : TraceEntry) : Option EventToken :=
  match entry.metadata.key.kind with
  | .delivery token => some token
  | .turn => none

/-- Entries numbered by action id, in order of their moments, with earlier causes. -/
abbrev CausalEntries (log : List TraceEntry) : Prop :=
  CausalLog (fun entry => entry.metadata.id.val)
    (fun entry => entry.metadata.cause.map Fin.val) (fun entry => entry.metadata.moment) log

/-- Once a duty has stopped, it has no further entry. -/
def StopsFinal (log : List TraceEntry) : Prop :=
  log.Pairwise fun entry later =>
    entry.turn.next = .stop → later.metadata.key.duty ≠ entry.metadata.key.duty

/-- The tokens of the events injected from outside. -/
def injectedTokens {E O ME NE SE : Type} (tr : List (Call E × Reply E O ME NE SE)) :
    List EventToken :=
  tr.filterMap fun l =>
    match l.2 with
    | .injected (.ok token) => some token
    | _ => none

namespace Simulation

variable {M S N E O ME SE NE : Type} [Retained E] [Retained O] [Model M E O ME]
  [Scheduler S SE] [Monitor N M O NE]

/-! ### What one call commits -/

/-- The action that a call commits. -/
def committedBy (l : Recorded M S N E O ME SE NE) : List TraceEntry :=
  match l.2.1 with
  | .step => (l.1.commitment.map fun c => ⟨c.1, c.2⟩).toList
  | .inject .. | .injectAfter .. | .injectAt .. => []

/-- Whether the scheduler's hook accepts the action that the next step commits. -/
def commitAccepted (sim : Simulation M S N E) : Bool :=
  match sim.attempt, sim.commitment with
  | some (started, _), some (metadata, turn) =>
    match (Scheduler.committed started.scheduler metadata turn).2 with
    | .ok () => true
    | .err _ | .panicked => false
  | _, _ => false

/-- The action that a call commits and the scheduler accepts. -/
def acceptedBy (l : Recorded M S N E O ME SE NE) : List TraceEntry :=
  if l.1.commitAccepted then committedBy l else []

def allCommitted (tr : List (Recorded M S N E O ME SE NE)) : List TraceEntry :=
  tr.flatMap committedBy

def allAccepted (tr : List (Recorded M S N E O ME SE NE)) : List TraceEntry :=
  tr.flatMap acceptedBy

/-- The call commits the action `sender`, which sent the event with this token. -/
def SentBy (l : Recorded M S N E O ME SE NE) (sender : TraceEntry) (token : EventToken) : Prop :=
  sender ∈ committedBy l ∧ ∃ log, l.1.committedLog = some (sender.metadata.id, log) ∧
    token ∈ (sends sender.metadata.id log).map Prod.fst

/-- Some call of the run does. -/
def SentIn (tr : List (Recorded M S N E O ME SE NE)) (sender : TraceEntry) (token : EventToken) :
    Prop :=
  ∃ l ∈ tr, SentBy l sender token

section

omit [Monitor N M O NE]

variable {sim : Simulation M S N E} {call : Call E} {reply : Reply E O ME NE SE}

theorem committedBy_none (h : sim.commitment = none) : committedBy (sim, .step, reply) = [] := by
  simp only [committedBy, h, Option.map_none, Option.toList_none]

theorem committedBy_some {metadata : ActionMeta} {turn : Turn}
    (h : sim.commitment = some (metadata, turn)) :
    committedBy (sim, .step, reply) = [⟨metadata, turn⟩] := by
  simp only [committedBy, h, Option.map_some, Option.toList_some]

theorem committedBy_injects {routed : DutyId × E} (h : call.injects = some routed) :
    committedBy (sim, call, reply) = [] := by
  cases call with
  | step => cases h
  | inject | injectAfter | injectAt => rfl

/-- A call commits one action at most. -/
theorem committedBy_cases (l : Recorded M S N E O ME SE NE) :
    committedBy l = [] ∨ ∃ entry, committedBy l = [entry] := by
  obtain ⟨sim, call, reply⟩ := l
  cases call with
  | step =>
    cases hcommit : sim.commitment with
    | none => exact .inl (committedBy_none hcommit)
    | some c => exact .inr ⟨_, committedBy_some hcommit⟩
  | inject | injectAfter | injectAt => exact .inl rfl

theorem acceptedBy_of_not {l : Recorded M S N E O ME SE NE} (h : committedBy l = []) :
    acceptedBy l = [] := by
  rw [acceptedBy, h, ite_self]

end

omit [Retained E] [Retained O] [Monitor N M O NE] in
/-- What an action is handed, and what its metadata say of it. -/
theorem Begins.metadata {sim started : Simulation M S N E} {callback : Callback M E O ME}
    (h : sim.Begins started callback) :
    callback.metadata.id = sim.actions ∧ callback.metadata.moment = sim.now ∧
    ((callback.delivered = none ∧ callback.metadata.key.kind = .turn ∧
        callback.metadata.cause = none) ∨
      ∃ token routed, callback.delivered = some (token, routed) ∧
        callback.metadata.key.kind = .delivery token ∧ callback.metadata.cause = routed.cause) := by
  have hmoment := h.now.2
  obtain ⟨key, selected, hsel, hstarts⟩ := h
  refine ⟨?_, hmoment, ?_⟩
  · cases hstarts <;> rfl
  · cases hstarts with
    | turn => exact .inl ⟨rfl, rfl, rfl⟩
    | delivery => exact .inr ⟨_, _, rfl, rfl, rfl⟩

omit [Monitor N M O NE] in
/-- A committed action has an attempt behind it. -/
theorem commitment_attempt {sim : Simulation M S N E} {c : ActionMeta × Turn}
    (h : sim.commitment = some c) :
    ∃ started callback, sim.attempt = some (started, callback) ∧ c.1 = callback.metadata := by
  rw [commitment] at h
  cases hattempt : sim.attempt with
  | none => simp [hattempt] at h
  | some a =>
    obtain ⟨started, callback⟩ := a
    refine ⟨started, callback, rfl, ?_⟩
    simp only [hattempt] at h
    split at h
    · split at h
      · rw [← Option.some_inj.mp h]
      · cases h
    · cases h

omit [Monitor N M O NE] in
/-- The action whose context calls are listed is the one that is committed. -/
theorem committedLog_commitment {sim : Simulation M S N E} {action : ActionId}
    {log : List (ContextCall E O × ContextReply E O)} (h : sim.committedLog = some (action, log)) :
    ∃ metadata turn, sim.commitment = some (metadata, turn) ∧ metadata.id = action := by
  rw [committedLog] at h
  rw [commitment]
  cases hattempt : sim.attempt with
  | none => simp [hattempt] at h
  | some a =>
    obtain ⟨started, callback⟩ := a
    simp only [hattempt] at h ⊢
    cases hrun : callback.program.run (started.context callback.metadata) with
    | error panic => simp [hrun] at h
    | ok outcome =>
      obtain ⟨context, log', model, result⟩ := outcome
      rw [hrun] at h
      cases result with
      | panicked | err => cases h
      | ok turn =>
        dsimp only at h ⊢
        split_ifs at h with hstop
        obtain ⟨rfl, -⟩ := Prod.mk.inj (Option.some_inj.mp h)
        have hunneeded : turn.next = .stop →
            context.pendingFor callback.metadata.key.duty = 0 :=
          fun hs => not_not.mp fun hn => hstop ⟨hs, hn⟩
        refine ⟨callback.metadata, turn, ?_, rfl⟩
        rw [commitContext_ok hunneeded]

omit [Monitor N M O NE] in
theorem commitment_idle {sim : Simulation M S N E} (h : sim.attempt = none) :
    sim.commitment = none := by
  simp only [commitment, h]

/-- What a step makes of its action: it commits none, or one that the scheduler
refuses, which ends the simulation, or one that the monitor is shown. -/
inductive CommitCase (sim sim' : Simulation M S N E) : Prop
  | none : sim.commitment = none → sim'.monitor = sim.monitor →
      (sim.attempt = none ∨ ¬ sim'.Live) → CommitCase sim sim'
  | refused {metadata turn} : sim.commitment = some (metadata, turn) →
      sim.commitAccepted = false → sim'.monitor = sim.monitor → ¬ sim'.Live → CommitCase sim sim'
  | accepted {metadata turn} {view : SimulationView M} {observations : List O} :
      sim.commitment = some (metadata, turn) → sim.commitAccepted = true →
      sim'.monitor = (Monitor.afterAction sim.monitor view
        (⟨metadata, turn, observations⟩ : ActionRecord O)).1 →
      CommitCase sim sim'

omit [Retained E] [Retained O] [Model M E O ME] [Scheduler S SE] [Monitor N M O NE] in
theorem Abort.not_ok {metadata : ActionMeta} {ctx : ActionContext E O}
    {result : Returned Turn ME} {r : StepReturn O ME NE SE} (h : Abort metadata ctx result r)
    (step : Step O) : r ≠ .ok step := by
  intro hok
  rw [hok] at h
  cases h

/-- A step of a simulation that failed or panicked leaves it for good. -/
theorem Transition.not_live {sim sim' : Simulation M S N E} {r : StepReturn O ME NE SE}
    (h : sim.Transition r sim') (hlive : sim.Live) (hr : ∀ step, r ≠ .ok step) : ¬ sim'.Live := by
  intro hlive'
  have hlifecycle := h.lifecycle hlive
  rw [hlive'.active, hlive'.unpoisoned] at hlifecycle
  cases r with
  | ok step => exact hr step rfl
  | err error => cases hlifecycle
  | unwound boundary => cases hlifecycle

theorem Transition.commits {sim sim' : Simulation M S N E} {r : StepReturn O ME NE SE}
    (h : sim.Transition r sim') (hs : sim.Sound) : sim.CommitCase sim' := by
  rcases h.attempted hs with ⟨hnone, -, -, -, hmonitor⟩ |
    ⟨started, callback, ctx, log, model, result, timeline, hattempt, hruns, habort, -, rfl⟩ |
    ⟨started, callback, ctx, log, model, turn, updated, hattempt, hruns, hc, hf⟩
  · exact .none (commitment_idle hnone) hmonitor (.inl hnone)
  · refine .none (commitment_aborted hattempt hruns habort) ?_ (.inr (halt_not_live ?_))
    · rw [halt_monitor]
      show started.monitor = sim.monitor
      rw [((attempt_iff hs).mp hattempt).2.frame]
    · exact habort.not_ok
  · obtain ⟨hlive, hb⟩ := (attempt_iff hs).mp hattempt
    have hcommit := commitment_eq hattempt hruns hc.unneeded
    have hscheduler : updated.scheduler = started.scheduler := by rw [hc.frame]
    have hmonitor : updated.monitor = sim.monitor := by rw [hc.frame, hb.frame]
    have haccepted : ∀ {verdict}, Scheduler.committed updated.scheduler callback.metadata turn
        = verdict → sim.commitAccepted = match verdict.2 with
          | .ok () => true
          | .err _ | .panicked => false := by
      rintro verdict rfl
      simp only [commitAccepted, hattempt, hcommit, hscheduler]
    cases hf with
    | commitUnwound hv | commitFailed hv =>
      exact .refused hcommit (haccepted hv) hmonitor (h.not_live hlive fun _ hok => by cases hok)
    | monitorUnwound hv hafter | monitorFailed hv hafter | accepted hv hafter =>
      rw [hmonitor] at hafter
      exact .accepted hcommit (haccepted hv) (congrArg Prod.fst hafter).symm

end Simulation

/-! ### What the trace keeps -/

/-- The trace keeps the first of the entries it was shown; it stays empty of
variable bytes, so only its capacity can turn an entry away. -/
structure Trace.Records {N : Type} (trace : Trace N) (limits : TraceLimits)
    (entries : List TraceEntry) : Prop where
  batch : trace.entries.limits = limits.batch
  measure : trace.entries.measure = Retained.retainedBytes
  retained : trace.entries.retained = 0
  kept : trace.entries.iter = entries.take limits.entries.get.val

theorem Trace.withMonitor_records {N : Type} (limits : TraceLimits) (monitor : N) :
    (Trace.withMonitor limits monitor).Records limits [] :=
  ⟨rfl, rfl, rfl, List.take_nil.symm⟩

/-- A batch of entries that retain nothing admits one more if its count allows. -/
theorem EventBatch.tryPush_free {E : Type} {batch : EventBatch E} {event : E}
    (hmeasure : batch.measure event = 0) (hretained : batch.retained = 0)
    (hcount : batch.events.length < batch.limits.events.get.val) :
    ∃ batch', batch.tryPush event = .ok batch' ∧ batch'.measure = batch.measure ∧
      batch'.retained = 0 := by
  have hadd : batch.retained.checkedAdd (batch.measure event) = some 0 := by
    rw [hmeasure, hretained]
    rfl
  rw [tryPush, dif_neg (Nat.not_le.mpr hcount)]
  dsimp only
  split
  · rename_i hnone
    rw [hadd] at hnone
    cases hnone
  · rename_i next hnext
    obtain rfl := Option.some_inj.mp (hadd.symm.trans hnext)
    rw [if_neg (Fin.not_lt.mpr (Fin.zero_le _))]
    exact ⟨_, rfl, rfl, rfl⟩

theorem take_take_append {α : Type} (l : List α) (x : α) (n : ℕ) :
    (l.take n ++ [x]).take n = (l ++ [x]).take n := by
  rcases Nat.lt_or_ge l.length n with h | h
  · rw [List.take_of_length_le h.le]
  · rw [List.take_append_of_le_length h, List.take_append_of_le_length (by simp [h]),
      List.take_take, Nat.min_self]

/-- **The step lemma** of the trace: it records the action, if there is room,
whatever the composed monitor makes of it. -/
theorem Trace.Records.afterAction {N M O NE : Type} [Monitor N M O NE] {trace : Trace N}
    {limits : TraceLimits} {entries : List TraceEntry} (h : trace.Records limits entries)
    (view : SimulationView M) (action : ActionRecord O) :
    (Monitor.afterAction trace view action).1.Records limits (entries ++ [.fromRecord action]) := by
  have hlength : trace.entries.iter.length = trace.entries.events.length := List.length_map _
  have hevents : trace.entries.limits.events = limits.entries := by rw [h.batch]; rfl
  by_cases hfull : limits.entries.get.val ≤ trace.entries.events.length
  · have hpush : trace.entries.tryPush (.fromRecord action)
        = .error ⟨.fromRecord action, .eventCapacity trace.entries.limits.events⟩ := by
      rw [EventBatch.tryPush, dif_pos (by rwa [hevents])]
    have hlong : limits.entries.get.val ≤ entries.length := by
      rw [h.kept, List.length_take] at hlength
      omega
    simp only [Monitor.afterAction, hpush]
    refine ⟨h.batch, h.measure, h.retained, ?_⟩
    rw [h.kept, List.take_append_of_le_length hlong]
  · obtain ⟨batch, hpush, hmeasure, hretained⟩ : ∃ batch,
        trace.entries.tryPush (TraceEntry.fromRecord action) = .ok batch ∧
          batch.measure = trace.entries.measure ∧ batch.retained = 0 :=
      EventBatch.tryPush_free (by rw [h.measure]; rfl) h.retained
        (by rw [hevents]; exact Nat.lt_of_not_le hfull)
    obtain ⟨hiter, hlimits⟩ := EventBatch.tryPush_ok hpush
    have hroom : batch.iter = (entries ++ [TraceEntry.fromRecord action]).take limits.entries.get.val := by
      rw [← take_take_append, ← h.kept, hiter, List.take_of_length_le]
      rw [List.length_append, List.length_singleton, hlength]
      omega
    -- the entry stays, also if the composed monitor then fails or panics
    have hrecords : ∀ monitor : N, Trace.Records ⟨trace.limits, batch, monitor⟩ limits
        (entries ++ [.fromRecord action]) := fun monitor =>
      ⟨hlimits.trans h.batch, hmeasure.trans h.measure, hretained, hroom⟩
    simp only [Monitor.afterAction, hpush]
    split <;> exact hrecords _

namespace Simulation

variable {M S N E O ME SE NE : Type} [Retained E] [Retained O] [Model M E O ME]
  [Scheduler S SE] [Monitor N M O NE]

/-- What a call adds to the record. -/
theorem Executes.records {sim sim' : Simulation M S (Trace N) E} {call : Call E}
    {reply : Reply E O ME (TraceError NE) SE} {limits : TraceLimits} {entries : List TraceEntry}
    (h : sim.Executes call reply sim') (hs : sim.Sound) (hr : sim.monitor.Records limits entries) :
    sim'.monitor.Records limits (entries ++ acceptedBy (sim, call, reply)) := by
  cases h with
  | stepped ht =>
    cases ht.commits hs with
    | none hcommit hmonitor =>
      rw [acceptedBy_of_not (committedBy_none hcommit), List.append_nil, hmonitor]
      exact hr
    | refused hcommit hrefused hmonitor =>
      rw [acceptedBy, if_neg (by simp [hrefused]), List.append_nil, hmonitor]
      exact hr
    | accepted hcommit haccepted hmonitor =>
      rw [acceptedBy, if_pos haccepted, committedBy_some hcommit, hmonitor]
      exact hr.afterAction _ _
  | injected hcall hi =>
    rw [acceptedBy_of_not (committedBy_injects hcall), List.append_nil]
    cases hi <;> exact hr

/-- **The run lemma** of the trace. -/
theorem steps_records {start sim : Simulation M S (Trace N) E} {limits : TraceLimits}
    {tr : List (Recorded M S (Trace N) E O ME SE (TraceError NE))} (hs : start.Sound)
    (hr : start.monitor.Records limits [])
    (h : Steps (system M S (Trace N) E O ME SE (TraceError NE)).recording.step start tr sim) :
    sim.monitor.Records limits (allAccepted tr) := by
  refine (h.invariant (I := fun tr sim => sim.Sound ∧ sim.monitor.Records limits (allAccepted tr))
    ⟨hs, hr⟩ ?_).2
  rintro tr u ⟨_, call, reply⟩ v - ⟨hu, hrecords⟩ ⟨rfl, hexec⟩
  have he := executes_of_exec hu hexec
  refine ⟨he.sound hu, ?_⟩
  rw [allAccepted, List.flatMap_append, List.flatMap_singleton]
  exact he.records hu hrecords

/-! ### Who sent what -/

omit [Retained E] [Retained O] in
theorem mem_sends_cause {action : ActionId} {log : List (ContextCall E O × ContextReply E O)}
    {p : EventToken × Routed E} (h : p ∈ sends action log) : p.2.cause = some action := by
  obtain ⟨l, _, hl⟩ := List.mem_filterMap.mp h
  rw [sentBy] at hl
  split at hl
  · obtain ⟨s, _, rfl⟩ := Option.map_eq_some_iff.mp hl
    rfl
  all_goals cases hl

omit [Monitor N M O NE] in
/-- An admitted event has its cause: none if it was injected, else the action that sent it. -/
theorem mem_admitted {sim : Simulation M S N E} {call : Call E} {reply : Reply E O ME NE SE}
    {p : EventToken × Routed E} (h : p ∈ sim.admitted call reply) :
    (p.2.cause = none ∧ reply = .injected (.ok p.1)) ∨
    ∃ r action log, reply = .stepped r ∧ p.2.cause = some action ∧
      sim.committedLog = some (action, log) ∧ p ∈ sends action log := by
  cases reply with
  | injected result =>
    cases result with
    | error => cases h
    | ok token =>
      obtain ⟨i, _, rfl⟩ := Option.map_eq_some_iff.mp (Option.mem_toList.mp h)
      exact .inl ⟨rfl, rfl⟩
  | stepped r =>
    simp only [admitted] at h
    split at h
    · cases h
    · rename_i action log hlog
      have hmem := List.mem_of_mem_filter h
      exact .inr ⟨r, action, log, rfl, mem_sends_cause hmem, hlog, hmem⟩

/-- The tokens that a committed action sends are fresh. -/
theorem Transition.sends_fresh {sim sim' : Simulation M S N E} {r : StepReturn O ME NE SE}
    (h : sim.Transition r sim') (hs : sim.Sound) {action : ActionId}
    {log : List (ContextCall E O × ContextReply E O)} (hlog : sim.committedLog = some (action, log)) :
    ∀ s ∈ sends action log, ¬ sim.timeline.Issued s.1.id ∧ sim'.timeline.Issued s.1.id := by
  rcases h.events hs with ⟨hattempt, -⟩ | ⟨_, _, _, hnone, -⟩ |
    ⟨started, callback, ctx, log', model, turn, hattempt, hlog', hruns, htimeline⟩
  · simp [committedLog, hattempt] at hlog
  · cases hnone.symm.trans hlog
  · obtain ⟨rfl, rfl⟩ := Prod.mk.inj (Option.some_inj.mp (hlog.symm.trans hlog'))
    obtain ⟨_, hissued, _⟩ := handling_balance hs hattempt
    obtain ⟨_, hb⟩ := (attempt_iff hs).mp hattempt
    have hstart := hb.sound hs
    have hbooked : Booked (started.context callback.metadata) ctx log :=
      .steps (.begin hstart.wf hstart.measure rfl rfl rfl) hruns.steps
    intro s hmem
    obtain ⟨hnot, hnow⟩ := hbooked.fresh s hmem
    exact ⟨fun hid => hnot (hissued.mp hid), htimeline ▸ hnow⟩

omit [Monitor N M O NE] in
theorem SentIn.committed {tr : List (Recorded M S N E O ME SE NE)} {sender : TraceEntry}
    {token : EventToken} (h : SentIn tr sender token) : sender ∈ allCommitted tr := by
  obtain ⟨l, hl, hsent, -⟩ := h
  exact List.mem_flatMap.mpr ⟨l, hl, hsent⟩

omit [Monitor N M O NE] in
theorem sentIn_append {tr tr' : List (Recorded M S N E O ME SE NE)} {sender : TraceEntry}
    {token : EventToken} :
    SentIn (tr ++ tr') sender token ↔ SentIn tr sender token ∨ SentIn tr' sender token := by
  simp only [SentIn, List.mem_append, or_and_right, exists_or]

/-- No token is sent by two actions, since every token that was sent is issued. -/
structure Senders (tr : List (Recorded M S N E O ME SE NE)) (sim : Simulation M S N E) : Prop where
  issued : ∀ {sender token}, SentIn tr sender token → sim.timeline.Issued token.id
  unique : ∀ {a b token}, SentIn tr a token → SentIn tr b token → a = b

theorem Senders.next {tr : List (Recorded M S N E O ME SE NE)} {sim sim' : Simulation M S N E}
    {call : Call E} {reply : Reply E O ME NE SE} (h : Senders tr sim)
    (he : sim.Executes call reply sim') (hs : sim.Sound) :
    Senders (tr ++ [(sim, call, reply)]) sim' := by
  have hkept : ∀ {id}, sim.timeline.Issued id → sim'.timeline.Issued id := (he.balances hs).issued
  have hfresh : ∀ {sender token}, SentIn [(sim, call, reply)] sender token →
      ¬ sim.timeline.Issued token.id ∧ sim'.timeline.Issued token.id := by
    rintro sender token ⟨l, hl, hsent, log, hlog, htoken⟩
    obtain rfl := List.mem_singleton.mp hl
    obtain ⟨s, hs', rfl⟩ := List.mem_map.mp htoken
    cases he with
    | stepped ht => exact ht.sends_fresh hs hlog s hs'
    | injected hcall =>
      rw [committedBy_injects hcall] at hsent
      cases hsent
  refine ⟨fun {sender token} hsent => ?_, fun {a b token} ha hb => ?_⟩
  · rcases sentIn_append.mp hsent with hold | hnew
    · exact hkept (h.issued hold)
    · exact (hfresh hnew).2
  -- an old token was issued before the call and a new one was not
  · rcases sentIn_append.mp ha with ha | ha <;> rcases sentIn_append.mp hb with hb | hb
    · exact h.unique ha hb
    · exact absurd (h.issued ha) (hfresh hb).1
    · exact absurd (h.issued hb) (hfresh ha).1
    · obtain ⟨l, hl, ha, -⟩ := ha
      obtain ⟨l', hl', hb, -⟩ := hb
      rw [List.mem_singleton.mp hl] at ha
      rw [List.mem_singleton.mp hl'] at hb
      rcases committedBy_cases (sim, call, reply) with hnil | ⟨entry, hone⟩
      · rw [hnil] at ha
        cases ha
      · rw [hone] at ha hb
        rw [List.mem_singleton.mp ha, List.mem_singleton.mp hb]

theorem run_senders {tr : List (Recorded M S N E O ME SE NE)} {sim : Simulation M S N E}
    (h : (system M S N E O ME SE NE).recording.Run tr sim) : Senders tr sim := by
  refine h.invariant (I := Senders) (fun _ => ⟨?_, ?_⟩) ?_
  · rintro sender token ⟨_, hl, -⟩
    cases hl
  · rintro a b token ⟨_, hl, -⟩
    cases hl
  · rintro tr sim ⟨_, call, reply⟩ sim' hrun hsenders ⟨rfl, hexec⟩
    have hs := reachable_sound hrun.ofRecording.reachable
    exact hsenders.next (executes_of_exec hs hexec) hs

/-- The cause of an event that a run admitted is the action that sent it. -/
theorem run_sent {tr : List (Recorded M S N E O ME SE NE)} {sim : Simulation M S N E}
    (h : (system M S N E O ME SE NE).recording.Run tr sim) {p : EventToken × Routed E}
    (hp : p ∈ allAdmitted tr) {action : ActionId} (hcause : p.2.cause = some action) :
    ∃ sender, SentIn tr sender p.1 ∧ sender.metadata.id = action := by
  obtain ⟨l, hl, hadmitted⟩ := List.mem_flatMap.mp hp
  rcases mem_admitted hadmitted with ⟨hnone, -⟩ | ⟨r, action', log, hreply, hsome, hlog, hmem⟩
  · cases hnone.symm.trans hcause
  · obtain rfl : action' = action := Option.some_inj.mp (hsome.symm.trans hcause)
    obtain ⟨metadata, turn, hcommit, rfl⟩ := committedLog_commitment hlog
    obtain ⟨hreach, sim', hexec⟩ := h.recorded l hl
    obtain ⟨u, call, reply⟩ := l
    obtain rfl : reply = .stepped r := hreply
    have he := executes_of_exec (reachable_sound hreach) hexec
    cases he with
    | stepped =>
      refine ⟨⟨metadata, turn⟩, ⟨_, hl, ?_, log, hlog, List.mem_map_of_mem hmem⟩, rfl⟩
      rw [committedBy_some hcommit]
      exact List.mem_singleton_self _

/-- An event that a run admitted has no cause exactly if it was injected. -/
theorem run_injected {tr : List (Recorded M S N E O ME SE NE)} {sim : Simulation M S N E}
    (h : (system M S N E O ME SE NE).recording.Run tr sim) {p : EventToken × Routed E}
    (hp : p ∈ allAdmitted tr) :
    p.2.cause = none ↔ p.1 ∈ injectedTokens (tr.map Prod.snd) := by
  constructor
  · intro hcause
    obtain ⟨l, hl, hadmitted⟩ := List.mem_flatMap.mp hp
    rcases mem_admitted hadmitted with ⟨-, hreply⟩ | ⟨_, _, _, _, hsome, -⟩
    · refine List.mem_filterMap.mpr ⟨l.2, List.mem_map_of_mem hl, ?_⟩
      rw [hreply]
    · cases hcause.symm.trans hsome
  · intro hinjected
    obtain ⟨_, hmem, htoken⟩ := List.mem_filterMap.mp hinjected
    obtain ⟨⟨u, call, reply⟩, hl, rfl⟩ := List.mem_map.mp hmem
    obtain ⟨hreach, sim', hexec⟩ := h.recorded _ hl
    have he := executes_of_exec (reachable_sound hreach) hexec
    cases he with
    | stepped => cases htoken
    | @injected _ target event result _ hcall =>
      cases result with
      | error => cases htoken
      | ok token =>
        obtain rfl : token = p.1 := Option.some_inj.mp htoken
        have hq : (p.1, (⟨target, none, event⟩ : Routed E)) ∈ allAdmitted tr := by
          refine List.mem_flatMap.mpr ⟨_, hl, ?_⟩
          simp [admitted, hcall]
        -- the token was admitted once only
        have heq := List.inj_on_of_nodup_map (run_ledger h).nodup hp hq rfl
        rw [heq]

/-! ### The committed actions of a run -/

omit [Monitor N M O NE] in
/-- What a sound simulation commits next. -/
theorem Sound.commits {sim : Simulation M S N E} (hs : sim.Sound) {metadata : ActionMeta}
    {turn : Turn} (h : sim.commitment = some (metadata, turn)) :
    sim.Live ∧ metadata.id = sim.actions ∧ metadata.moment = sim.now ∧
    metadata.key.duty ∉ sim.stopped ∧
    ((metadata.key.kind = .turn ∧ metadata.cause = none) ∨
      ∃ token routed, metadata.key.kind = .delivery token ∧ metadata.cause = routed.cause ∧
        sim.handling = [⟨metadata, token, routed⟩]) := by
  obtain ⟨started, callback, hattempt, heq⟩ := commitment_attempt h
  obtain rfl : metadata = callback.metadata := heq
  obtain ⟨hlive, hb⟩ := (attempt_iff hs).mp hattempt
  obtain ⟨hid, hmoment, hkind⟩ := hb.metadata
  have hstopped : started.stopped = sim.stopped := by rw [hb.frame]
  refine ⟨hlive, hid, hmoment, hstopped ▸ (hb.duty hs).2, ?_⟩
  rcases hkind with ⟨_, hturn, hcause⟩ | ⟨token, routed, hdelivered, hkind, hcause⟩
  · exact .inl ⟨hturn, hcause⟩
  · exact .inr ⟨token, routed, hkind, hcause, by simp only [handling, hattempt, hdelivered]⟩

/-- Only a live simulation leads to a live one. -/
theorem Executes.live {sim sim' : Simulation M S N E} {call : Call E} {reply : Reply E O ME NE SE}
    (h : sim.Executes call reply sim') (hlive : sim'.Live) : sim.Live := by
  cases h with
  | stepped ht =>
    cases ht with
    | poisoned | inactive => exact hlive
    | limited h | refused h | rolledBack h | committed h | completed h | finishRefused h
    | quiescent h | timeLimited h | advanced h => exact h
  | injected _ hi =>
    cases hi with
    | rejected => exact hlive
    | admitted h => exact h

/-- The committed actions of a run form a causal log, which the scheduler has
accepted but perhaps for its end, and which no stopped duty is added to. -/
structure Chronicle (tr : List (Recorded M S N E O ME SE NE)) (sim : Simulation M S N E) :
    Prop where
  log : CausalEntries (allCommitted tr)
  /-- As long as the simulation is live, every attempt has been committed and accepted. -/
  count : sim.Live → (allCommitted tr).length = sim.actions.val
  accepted : sim.Live → allAccepted tr = allCommitted tr
  refused : allCommitted tr = allAccepted tr ∨
    ∃ entry, allCommitted tr = allAccepted tr ++ [entry]
  past : ∀ entry ∈ allCommitted tr, entry.metadata.moment ≤ sim.now
  stopped : ∀ entry ∈ allCommitted tr, entry.turn.next = .stop →
    entry.metadata.key.duty ∈ sim.stopped
  stops : StopsFinal (allCommitted tr)

omit [Monitor N M O NE] in
theorem allCommitted_snoc (tr : List (Recorded M S N E O ME SE NE))
    (l : Recorded M S N E O ME SE NE) :
    allCommitted (tr ++ [l]) = allCommitted tr ++ committedBy l := by
  rw [allCommitted, List.flatMap_append, List.flatMap_singleton, allCommitted]

omit [Monitor N M O NE] in
theorem allAccepted_snoc (tr : List (Recorded M S N E O ME SE NE))
    (l : Recorded M S N E O ME SE NE) :
    allAccepted (tr ++ [l]) = allAccepted tr ++ acceptedBy l := by
  rw [allAccepted, List.flatMap_append, List.flatMap_singleton, allAccepted]

omit [Monitor N M O NE] in
/-- A call that commits nothing. -/
theorem Chronicle.idle {tr : List (Recorded M S N E O ME SE NE)} {sim sim' : Simulation M S N E}
    {l : Recorded M S N E O ME SE NE} (h : Chronicle tr sim) (hl : committedBy l = [])
    (hlive : sim'.Live → sim.Live ∧ sim'.actions = sim.actions) (hnow : sim.now ≤ sim'.now)
    (hstopped : sim.stopped ⊆ sim'.stopped) : Chronicle (tr ++ [l]) sim' := by
  have hcommitted : allCommitted (tr ++ [l]) = allCommitted tr := by
    rw [allCommitted_snoc, hl, List.append_nil]
  have haccepted : allAccepted (tr ++ [l]) = allAccepted tr := by
    rw [allAccepted_snoc, acceptedBy_of_not hl, List.append_nil]
  constructor <;> simp only [hcommitted, haccepted]
  · exact h.log
  · exact fun hl => (hlive hl).2 ▸ h.count (hlive hl).1
  · exact fun hl => h.accepted (hlive hl).1
  · exact h.refused
  · exact fun entry hmem => (h.past entry hmem).trans hnow
  · exact fun entry hmem hstop => hstopped (h.stopped entry hmem hstop)
  · exact h.stops

/-- A step that commits. -/
theorem Chronicle.commit {tr : List (Recorded M S N E O ME SE NE)} {sim sim' : Simulation M S N E}
    {r : StepReturn O ME NE SE} (h : Chronicle tr sim)
    (hrun : (system M S N E O ME SE NE).recording.Run tr sim) (ht : sim.Transition r sim')
    {metadata : ActionMeta} {turn : Turn} (hcommit : sim.commitment = some (metadata, turn))
    (hrefused : sim'.Live → sim.commitAccepted = true) :
    Chronicle (tr ++ [(sim, .step, .stepped r)]) sim' := by
  have hs := reachable_sound hrun.ofRecording.reachable
  obtain ⟨hlive, hid, hmoment, hduty, hkind⟩ := hs.commits hcommit
  have hone : committedBy ((sim, .step, .stepped r) : Recorded M S N E O ME SE NE)
      = [⟨metadata, turn⟩] := committedBy_some hcommit
  have hcommitted := allCommitted_snoc tr (sim, Call.step, (.stepped r : Reply E O ME NE SE))
  have haccepted := allAccepted_snoc tr (sim, Call.step, (.stepped r : Reply E O ME NE SE))
  rw [hone] at hcommitted
  rw [acceptedBy, hone] at haccepted
  have hactions : sim'.actions.val = sim.actions.val + 1 := by
    cases ht.counted hs with
    | attempted _ _ hactions => exact hactions
    | kept hnone | advanced hnone => cases (commitment_idle hnone).symm.trans hcommit
  -- a cause was committed before, so its id is already taken
  have hcause : ∀ {action}, metadata.cause = some action →
      action.val < (allCommitted tr).length := by
    intro action hsome
    rcases hkind with ⟨_, hnone⟩ | ⟨token, routed, _, hrouted, hhandling⟩
    · cases hnone.symm.trans hsome
    · have hpending : (token, routed) ∈ sim.timeline.pending := by
        refine (ht.balances hs).source ⟨metadata, token, routed⟩ ?_
        rw [handled, hhandling]
        exact List.mem_singleton_self _
      obtain ⟨sender, hsent, rfl⟩ := run_sent hrun ((run_ledger hrun).pending _ hpending)
        (hrouted.symm.trans hsome)
      exact h.log.lt_length hsent.committed
  constructor <;> simp only [hcommitted, haccepted]
  · refine h.log.snoc (by rw [hid, h.count hlive]) (fun {c} hc => ?_)
      fun entry hmem => hmoment ▸ h.past entry hmem
    obtain ⟨action, hsome, rfl⟩ := Option.map_eq_some_iff.mp hc
    exact hcause hsome
  · intro _
    rw [List.length_append, List.length_singleton, h.count hlive, hactions]
  · intro hl
    rw [if_pos (hrefused hl), h.accepted hlive]
  · rw [← h.accepted hlive]
    by_cases haccept : sim.commitAccepted = true
    · exact .inl (by rw [if_pos haccept])
    · exact .inr ⟨_, by rw [if_neg haccept, List.append_nil]⟩
  · have hnow := exec_now (.stepped ht)
    intro entry hmem
    rcases List.mem_append.mp hmem with hmem | hmem
    · exact (h.past entry hmem).trans hnow
    · obtain rfl := List.mem_singleton.mp hmem
      exact hmoment ▸ hnow
  · intro entry hmem hstop
    rw [ht.stopped hs]
    rcases List.mem_append.mp hmem with hmem | hmem
    · exact subset_stoppedNext sim (h.stopped entry hmem hstop)
    · obtain rfl := List.mem_singleton.mp hmem
      simp only [stoppedNext, hcommit, if_pos hstop, Finset.mem_insert_self]
  · refine List.pairwise_append.mpr ⟨h.stops, List.pairwise_singleton _ _, ?_⟩
    intro entry hmem later hlater hstop heq
    obtain rfl := List.mem_singleton.mp hlater
    exact hduty (heq ▸ h.stopped entry hmem hstop)

/-- **The run lemma**: every run is chronicled by what it commits. -/
theorem run_chronicle {tr : List (Recorded M S N E O ME SE NE)} {sim : Simulation M S N E}
    (h : (system M S N E O ME SE NE).recording.Run tr sim) : Chronicle tr sim := by
  refine h.invariant (I := Chronicle) ?_ ?_
  · rintro sim ⟨id, now, model, topology, limits, scheduler, monitor, hbuild⟩
    refine ⟨.nil, fun _ => ?_, fun _ => rfl, .inl rfl, by simp [allCommitted],
      by simp [allCommitted], .nil⟩
    rw [withParts_eq hbuild]
    rfl
  · rintro tr sim ⟨_, call, reply⟩ sim' hrun hchronicle ⟨rfl, hexec⟩
    have hs := reachable_sound hrun.ofRecording.reachable
    have he := executes_of_exec hs hexec
    have hnow := exec_now he
    have hstopped := he.stopped hs
    cases he with
    | injected hcall hi =>
      refine hchronicle.idle (committedBy_injects hcall) (fun hlive => ?_) hnow hstopped
      cases hi with
      | rejected => exact ⟨hlive, rfl⟩
      | admitted h => exact ⟨h, rfl⟩
    | stepped ht =>
      -- a step commits nothing, commits and is refused, or commits
      cases ht.commits hs with
      | none hcommit _ hidle =>
        refine hchronicle.idle (committedBy_none hcommit) (fun hlive => ?_) hnow
          hstopped
        have hnone := hidle.resolve_right (not_not.mpr hlive)
        refine ⟨Executes.live (.stepped ht) hlive, ?_⟩
        cases ht.counted hs with
        | attempted hsome => simp [hnone] at hsome
        | kept _ hactions | advanced _ hactions => exact hactions
      | refused hcommit _ _ hdead =>
        exact hchronicle.commit hrun ht hcommit fun hlive => absurd hlive hdead
      | accepted hcommit haccepted =>
        exact hchronicle.commit hrun ht hcommit fun _ => haccepted

/-! ### Deliveries -/

/-- A turn has no cause, and a delivery has that of the event it was handed. -/
theorem committed_call {tr : List (Recorded M S N E O ME SE NE)} {sim : Simulation M S N E}
    (h : (system M S N E O ME SE NE).recording.Run tr sim) {l : Recorded M S N E O ME SE NE}
    (hl : l ∈ tr) {entry : TraceEntry} (hentry : entry ∈ committedBy l) :
    (entry.delivered = none ∧ entry.metadata.cause = none) ∨
    ∃ token routed, entry.delivered = some token ∧ entry.metadata.cause = routed.cause ∧
      l.1.handled l.2.2 = [⟨entry.metadata, token, routed⟩] := by
  obtain ⟨hreach, sim', hexec⟩ := h.recorded l hl
  obtain ⟨u, call, reply⟩ := l
  have hs := reachable_sound hreach
  cases executes_of_exec hs hexec with
  | injected hcall =>
    rw [committedBy_injects hcall] at hentry
    cases hentry
  | stepped ht =>
    obtain ⟨⟨metadata, turn⟩, hcommit, rfl⟩ :=
      Option.map_eq_some_iff.mp (Option.mem_toList.mp hentry)
    obtain ⟨-, -, -, -, hkind⟩ := hs.commits hcommit
    rcases hkind with ⟨hturn, hcause⟩ | ⟨token, routed, hdelivery, hcause, hhandling⟩
    · exact .inl ⟨by simp only [TraceEntry.delivered, hturn], hcause⟩
    · exact .inr ⟨token, routed, by simp only [TraceEntry.delivered, hdelivery], hcause, hhandling⟩

/-- No token is delivered by two actions. -/
theorem run_delivered_nodup {tr : List (Recorded M S N E O ME SE NE)} {sim : Simulation M S N E}
    (h : (system M S N E O ME SE NE).recording.Run tr sim) :
    ((allCommitted tr).filterMap TraceEntry.delivered).Nodup := by
  have hledger := run_ledger h
  have hhandled : ((allHandled tr).map Handling.token).Nodup := by
    have hall := hledger.balance ▸ Multiset.coe_nodup.mpr hledger.nodup
    exact Multiset.coe_nodup.mp (Multiset.nodup_add.mp (Multiset.nodup_add.mp hall).1).2.1
  refine hhandled.sublist ?_
  rw [allCommitted, allHandled, List.filterMap_flatMap, List.map_flatMap]
  refine List.Sublist.flatMap_right tr fun l hl => ?_
  rcases committedBy_cases l with hnil | ⟨entry, hone⟩
  · rw [hnil]
    exact List.nil_sublist _
  · rw [hone]
    rcases committed_call h hl (hone ▸ List.mem_singleton_self entry) with
      ⟨hnone, -⟩ | ⟨token, routed, hsome, -, hhandling⟩
    · simp [hnone]
    · simp [hsome, hhandling]

/-! ### A fresh trace -/

/-- The token that an injection has returned. -/
def tokenSeen {E O : Type} :
    Call E × (Option (Step O) ⊕ Except (InjectionError E) EventToken) → Option EventToken
  | (_, .inr (.ok token)) => some token
  | _ => none

omit [Retained E] [Retained O] [Model M E O ME] [Scheduler S SE] [Monitor N M O NE] in
/-- The injected tokens can be seen from outside. -/
theorem injectedTokens_seen {ME' NE' SE' : Type} {tr : List (Call E × Reply E O ME NE SE)}
    {tr' : List (Call E × Reply E O ME' NE' SE')} (h : seen tr = seen tr') :
    injectedTokens tr = injectedTokens tr' := by
  have hseen : ∀ {ME NE SE : Type} (tr : List (Call E × Reply E O ME NE SE)),
      injectedTokens tr = (seen tr).filterMap tokenSeen := by
    intro ME NE SE tr
    rw [seen, List.filterMap_map, injectedTokens]
    refine List.filterMap_congr fun l _ => ?_
    obtain ⟨call, r | result⟩ := l
    · cases r <;> rfl
    · cases result <;> rfl
  rw [hseen, hseen, h]

/-- A run of injections is one under another monitor too. -/
theorem run_attached {N' NE' : Type} [Monitor N' M O NE'] {ready : Simulation M S N E}
    {before : List (Call E × Reply E O ME NE SE)}
    (h : (system M S N E O ME SE NE).Run before ready) (hinjects : ∀ l ∈ before, l.1 ≠ .step)
    (monitor : N') :
    ∃ tr : List (Recorded M S N' E O ME SE NE'),
      (system M S N' E O ME SE NE').recording.Run tr (ready.withMonitor monitor) ∧
      (∀ l ∈ tr, committedBy l = []) ∧ injectedTokens (tr.map Prod.snd) = injectedTokens before := by
  obtain ⟨start, ⟨timeline, now, model, topology, limits, _, _, hbuild⟩, hsteps⟩ := h
  have hattached : ∃ calls : List (Call E × Reply E O ME NE' SE),
      Steps (system M S N' E O ME SE NE').step (start.hostedBy ready.scheduler monitor) calls
        (ready.withMonitor monitor) ∧ seen calls = seen before :=
    run_injections hsteps hinjects ready.scheduler monitor
  obtain ⟨calls, hcalls, hseen⟩ := hattached
  have hrun : (system M S N' E O ME SE NE').Run calls (ready.withMonitor monitor) :=
    ⟨_, ⟨timeline, now, model, topology, limits, _, _, withParts_hostedBy hbuild _ _⟩, hcalls⟩
  have hrecording : ∃ tr : List (Recorded M S N' E O ME SE NE'), tr.map Prod.snd = calls ∧
      (system M S N' E O ME SE NE').recording.Run tr (ready.withMonitor monitor) :=
    hrun.unlabel Prod.snd id fun {s l s'} hstep => ⟨(s, l), rfl, rfl, hstep⟩
  obtain ⟨tr, rfl, hrecorded⟩ := hrecording
  refine ⟨tr, hrecorded, fun l hl => ?_, injectedTokens_seen hseen⟩
  -- the calls of the two runs are the same ones
  have hmem : l.2.1 ∈ before.map Prod.fst := by
    have hsame : (tr.map Prod.snd).map Prod.fst = before.map Prod.fst := by
      rw [← seen_calls, hseen, seen_calls]
    rw [← hsame]
    exact List.mem_map_of_mem (List.mem_map_of_mem hl)
  obtain ⟨u, call, reply⟩ := l
  obtain ⟨l', hl', heq⟩ := List.mem_map.mp hmem
  have hcall : call ≠ .step := fun hstep => hinjects l' hl' (heq.trans hstep)
  cases call with
  | step => exact absurd rfl hcall
  | inject | injectAfter | injectAt => rfl

/-- **The causal trace is well formed**, in every run that a fresh trace
monitors from before the first step on. -/
theorem causal_trace {N₀ NE₀ : Type} [Monitor N₀ M O NE₀] {ready : Simulation M S N₀ E}
    {before : List (Call E × Reply E O ME NE₀ SE)} {limits : TraceLimits} {inner : N}
    {tr : List (Recorded M S (Trace N) E O ME SE (TraceError NE))} {sim : Simulation M S (Trace N) E}
    (hbefore : (system M S N₀ E O ME SE NE₀).Run before ready)
    (hinjects : ∀ l ∈ before, l.1 ≠ .step)
    (hrun : Steps (system M S (Trace N) E O ME SE (TraceError NE)).recording.step
      (ready.withMonitor (.withMonitor limits inner)) tr sim) :
    -- it keeps the first committed actions, in the order of their commits; the
    -- scheduler can keep at most the last committed action away from it
    sim.monitor.entries.iter = (allAccepted tr).take limits.entries.get.val ∧
    (allCommitted tr = allAccepted tr ∨ ∃ entry, allCommitted tr = allAccepted tr ++ [entry]) ∧
    -- the action ids are the positions, and the moments are in order
    (∀ i (entry : TraceEntry), sim.monitor.entries.iter[i]? = some entry →
      entry.metadata.id.val = i) ∧
    sim.monitor.entries.iter.Pairwise (fun a b => a.metadata.moment ≤ b.metadata.moment) ∧
    -- a turn has no cause
    (∀ entry ∈ sim.monitor.entries.iter, entry.metadata.key.kind = .turn →
      entry.metadata.cause = none) ∧
    -- a delivery has none exactly if its event was injected, and else it has the
    -- one action that sent the event: an earlier entry, at a moment no later
    (∀ entry ∈ sim.monitor.entries.iter, ∀ token, entry.metadata.key.kind = .delivery token →
      (entry.metadata.cause = none ↔
        token ∈ injectedTokens before ++ injectedTokens (tr.map Prod.snd)) ∧
      ∀ cause, entry.metadata.cause = some cause → cause < entry.metadata.id ∧
        ∃ parent, sim.monitor.entries.iter[cause.val]? = some parent ∧
          parent.metadata.id = cause ∧ parent.metadata.moment ≤ entry.metadata.moment ∧
          ∀ sender, SentIn tr sender token ↔ sender = parent) ∧
    -- no token is delivered twice, and nothing comes after a stop
    (sim.monitor.entries.iter.filterMap TraceEntry.delivered).Nodup ∧
    StopsFinal sim.monitor.entries.iter := by
  obtain ⟨acts, hacts, hquiet, hinjected⟩ :=
    run_attached hbefore hinjects (Trace.withMonitor limits inner)
  have hrecords := steps_records (reachable_sound hacts.ofRecording.reachable)
    (Trace.withMonitor_records limits inner) hrun
  have hall : (system M S (Trace N) E O ME SE (TraceError NE)).recording.Run (acts ++ tr) sim := by
    obtain ⟨start, hinit, hsteps⟩ := hacts
    exact ⟨start, hinit, hsteps.trans hrun⟩
  have hcommitted : allCommitted (acts ++ tr) = allCommitted tr := by
    rw [allCommitted, List.flatMap_append, List.flatMap_eq_nil_iff.mpr hquiet]
    rfl
  have haccepted : allAccepted (acts ++ tr) = allAccepted tr := by
    rw [allAccepted, List.flatMap_append,
      List.flatMap_eq_nil_iff.mpr fun l hl => acceptedBy_of_not (hquiet l hl)]
    rfl
  have hsent : ∀ {sender token}, SentIn (acts ++ tr) sender token ↔ SentIn tr sender token := by
    refine fun {sender token} => sentIn_append.trans (or_iff_right ?_)
    rintro ⟨l, hl, hsender, -⟩
    rw [hquiet l hl] at hsender
    cases hsender
  have hchronicle := run_chronicle hall
  have hrefused := hchronicle.refused
  rw [hcommitted, haccepted] at hrefused
  -- all that follows holds of the whole log, and so of what the trace keeps of it
  have hinitial : sim.monitor.entries.iter <+: allCommitted (acts ++ tr) := by
    rw [hrecords.kept, hcommitted]
    have htake : (allAccepted tr).take limits.entries.get.val <+: allAccepted tr :=
      ⟨_, List.take_append_drop _ _⟩
    refine htake.trans ?_
    rcases hrefused with heq | ⟨entry, heq⟩
    · rw [heq]
    · exact ⟨_, heq.symm⟩
  have hlog := hchronicle.log.truncate hinitial
  have hmem : ∀ entry ∈ sim.monitor.entries.iter, ∃ l ∈ acts ++ tr, entry ∈ committedBy l :=
    fun entry hentry => List.mem_flatMap.mp (hinitial.subset hentry)
  refine ⟨hrecords.kept, hrefused, fun i entry hi => hlog.position hi, hlog.ordered,
    fun entry hentry hturn => ?_, fun entry hentry token hdelivery => ?_,
    (run_delivered_nodup hall).sublist (hinitial.sublist.filterMap _),
    hchronicle.stops.sublist hinitial.sublist⟩
  · obtain ⟨l, hl, hcommits⟩ := hmem entry hentry
    rcases committed_call hall hl hcommits with ⟨-, hcause⟩ | ⟨token, routed, hdelivered, -⟩
    · exact hcause
    · simp [TraceEntry.delivered, hturn] at hdelivered
  · have hdelivered : entry.delivered = some token := by
      simp only [TraceEntry.delivered, hdelivery]
    obtain ⟨l, hl, hcommits⟩ := hmem entry hentry
    rcases committed_call hall hl hcommits with
      ⟨hnone, -⟩ | ⟨token', routed, hsome, hcause, hhandled⟩
    · cases hnone.symm.trans hdelivered
    obtain rfl : token' = token := Option.some_inj.mp (hsome.symm.trans hdelivered)
    have hadmitted : (token', routed) ∈ allAdmitted (acts ++ tr) := by
      refine (run_ledger hall).handled ⟨entry.metadata, token', routed⟩ ?_
      exact List.mem_flatMap.mpr ⟨l, hl, hhandled ▸ List.mem_singleton_self _⟩
    refine ⟨?_, fun cause hsome => ?_⟩
    · rw [hcause, run_injected hall hadmitted, List.map_append, ← hinjected, injectedTokens,
        List.filterMap_append]
      rfl
    · obtain ⟨hlt, parent, hparent, hid, hmoment⟩ :=
        hlog.parent hentry (c := cause.val) (by rw [hsome]; rfl)
      obtain ⟨sender, hsender, hsenderId⟩ := run_sent hall hadmitted (hcause.symm.trans hsome)
      obtain rfl : sender = parent := hchronicle.log.unique hsender.committed
        (hinitial.subset (List.mem_of_getElem? hparent)) (by rw [hsenderId, hid])
      refine ⟨hlt, sender, hparent, hsenderId, hmoment, fun other => ⟨fun hother => ?_, ?_⟩⟩
      · exact (run_senders hall).unique (hsent.mpr hother) hsender
      · rintro rfl
        exact hsent.mp hsender

/-- The event that an action sent is delivered after it, and names it; the
injected one names no action. -/
theorem causal_trace_echo :
    (echoWorld.after echoCalls).monitor.entries.iter.map
        (fun entry => (entry.delivered, entry.metadata.cause))
      = [(none, none), (some ⟨7, 1, 3⟩, some 0), (some ⟨7, 0, 5⟩, none)] ∧
    ∃ parent, (echoWorld.after echoCalls).monitor.entries.iter[0]? = some parent ∧
      ∀ sender, SentIn (echoWorld.history echoCalls) sender ⟨7, 1, 3⟩ ↔ sender = parent := by
  refine ⟨by decide +kernel, ?_⟩
  obtain ⟨-, -, -, -, -, hdelivery, -⟩ := causal_trace
    (Playback.recorded_world echoCallbacks Fifo.mk NoopMonitor.mk
      [.injectAfter 1 5 ()]).ofRecording
    (by decide +kernel) (recording_after echoWorld echoCalls)
  have hentry : (echoWorld.after echoCalls).monitor.entries.iter[1]?
      = some ⟨⟨1, .delivery 1 ⟨7, 1, 3⟩, 3, some 0⟩, ⟨0, .wake⟩⟩ := by decide +kernel
  obtain ⟨-, hcause⟩ := hdelivery _ (List.mem_of_getElem? hentry) ⟨7, 1, 3⟩ rfl
  obtain ⟨-, parent, hparent, -, -, hsender⟩ := hcause 0 rfl
  exact ⟨parent, hparent, hsender⟩

/-- A duty that stops in its first turn, under a replay that expects more work of it. -/
def refusingWorld : Simulation (Playback Unit Unit Empty) Replay (Trace NoopMonitor) Unit :=
  Playback.world [] (.fromEntries [⟨⟨0, .turn 1, 0, none⟩, ⟨1, .stop⟩⟩] (by decide))
    (.withMonitor ⟨⟨8, U64.eight_ne_zero⟩, 0⟩ NoopMonitor.mk)

/-- **An action that the scheduler refuses is committed but not recorded**: the
duty has stopped, there is room for eight entries, and the trace is empty. -/
theorem refused_not_recorded :
    (system (Playback Unit Unit Empty) Replay (Trace NoopMonitor) Unit Unit Empty ReplayDivergence
        (TraceError Empty)).recording.Run
      (refusingWorld.history [.step]) (refusingWorld.after [.step]) ∧
    refusingWorld.monitor = .withMonitor ⟨⟨8, by decide⟩, 0⟩ NoopMonitor.mk ∧
    1 ∈ (refusingWorld.after [.step]).stopped ∧
    allCommitted (refusingWorld.history [.step]) = [⟨⟨0, .turn 1, 0, none⟩, ⟨0, .stop⟩⟩] ∧
    (refusingWorld.after [.step]).monitor.entries.iter = [] ∧
    (refusingWorld.after [.step]).monitor.entries.iter
      ≠ (allCommitted (refusingWorld.history [.step])).take
        (min 8 (allCommitted (refusingWorld.history [.step])).length) :=
  ⟨Playback.recorded_world [] _ _ [.step], rfl, by decide +kernel, by decide +kernel,
    by decide +kernel, by decide +kernel⟩

end Simulation

end Calandria
