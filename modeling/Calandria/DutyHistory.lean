/-
The state of a duty is its history.

The kernel keeps a small state for each duty: what the duty asked for last, and how
often it acted.  The state is rewritten in place, by the commit of one action after
another.

* `Transition.states` — a step rewrites the state of the duty that commits, and no
  other;
* `run_states` — so the state of a duty is folded from its entries in the trace;
* `duty_history` — it holds the last answer of the duty and counts its turns and
  deliveries exactly, for there are too few actions to saturate the counters.
-/
import Calandria.CausalTrace
import Calandria.Interest

namespace Calandria

/-- What an entry of the trace makes of its duty's state. -/
def DutyState.record (state : DutyState) (entry : TraceEntry) : DutyState :=
  state.update entry.turn entry.delivered.isSome

/-- What the entries of a duty make of the state it starts with. -/
def DutyState.after (entries : List TraceEntry) : DutyState :=
  entries.foldl DutyState.record .initial

theorem DutyState.after_snoc (entries : List TraceEntry) (entry : TraceEntry) :
    DutyState.after (entries ++ [entry]) = (DutyState.after entries).record entry := by
  rw [after, List.foldl_append]
  rfl

/-- Counters that are far from their limit count exactly. -/
theorem DutyState.after_eq (entries : List TraceEntry) (h : entries.length < 2 ^ 64) :
    (DutyState.after entries).next = (entries.getLast?.map fun entry => entry.turn.next).getD .now ∧
    (DutyState.after entries).turns.val = entries.countP (fun entry => entry.delivered.isNone) ∧
    (DutyState.after entries).deliveries.val
      = entries.countP (fun entry => entry.delivered.isSome) := by
  induction entries using List.reverseRecOn with
  | nil => exact ⟨rfl, rfl, rfl⟩
  | append_singleton entries entry ih =>
    rw [List.length_append, List.length_singleton] at h
    obtain ⟨-, hturns, hdeliveries⟩ := ih (by omega)
    have hle := entries.countP_le_length (p := fun entry => entry.delivered.isNone)
    have hle' := entries.countP_le_length (p := fun entry => entry.delivered.isSome)
    rw [after_snoc, record, update, List.getLast?_concat, List.countP_append, List.countP_append]
    cases hdelivered : entry.delivered with
    | none =>
      refine ⟨rfl, ?_, ?_⟩
      · simp [U64.saturatingAdd_val, hturns, hdelivered]
        omega
      · simp [hdeliveries, hdelivered]
    | some token =>
      refine ⟨rfl, ?_, ?_⟩
      · simp [hturns, hdelivered]
      · simp [U64.saturatingAdd_val, hdeliveries, hdelivered]
        omega

namespace Simulation

variable {M S N E O ME SE NE : Type} [Retained E] [Retained O] [Model M E O ME]
  [Scheduler S SE] [Monitor N M O NE]

/-- The entries of a duty among what a run committed. -/
def entriesOf (tr : List (Recorded M S N E O ME SE NE)) (duty : DutyId) : List TraceEntry :=
  (allCommitted tr).filter fun entry => entry.metadata.key.duty = duty

/-! ### One step -/

/-- **What a step makes of the duties**: their states are those before, but for the duty that
commits. -/
theorem Transition.states {sim sim' : Simulation M S N E} {r : StepReturn O ME NE SE}
    (h : sim.Transition r sim') (hs : sim.Sound) :
    (sim.commitment = none ∧ sim'.states = sim.states) ∨
    ∃ metadata turn state, sim.commitment = some (metadata, turn) ∧
      sim.states.get? metadata.key.duty = some state ∧
      sim'.states = sim.states.insert metadata.key.duty (state.record ⟨metadata, turn⟩) := by
  rcases h.attempted hs with ⟨hnone, -⟩ |
    ⟨started, callback, ctx, log, model, result, timeline, hattempt, hruns, habort, _, rfl⟩ |
    ⟨started, callback, ctx, log, model, turn, updated, hattempt, hruns, hc, hf⟩
  · refine .inl ⟨by simp only [commitment, hnone], ?_⟩
    cases h with
    | poisoned | inactive | limited | completed | quiescent | timeLimited | advanced => rfl
    | refused | finishRefused => exact halt_states _ _
    | rolledBack hlive hb | committed hlive hb =>
      rw [(attempt_iff hs).mpr ⟨hlive, hb⟩] at hnone
      cases hnone
  · refine .inl ⟨commitment_aborted hattempt hruns habort, ?_⟩
    rw [halt_states]
    show started.states = sim.states
    rw [((attempt_iff hs).mp hattempt).2.frame]
  · have hb := ((attempt_iff hs).mp hattempt).2
    have hstates : started.states = sim.states := by rw [hb.frame]
    obtain ⟨state, hstate, hupdated⟩ := hc.result
    refine .inr ⟨_, turn, state, commitment_eq hattempt hruns hc.unneeded, hstates ▸ hstate, ?_⟩
    have hkind : callback.delivered.isSome
        = (TraceEntry.delivered ⟨callback.metadata, turn⟩).isSome := by
      rcases hb.metadata.2.2 with ⟨hdelivered, hkind, -⟩ | ⟨token, routed, hdelivered, hkind, -⟩
      · simp only [hdelivered, TraceEntry.delivered, hkind, Option.isSome_none]
      · simp only [hdelivered, TraceEntry.delivered, hkind, Option.isSome_some]
    rw [hf.frame, hupdated, DutyState.record, ← hkind, ← hstates]

/-! ### Runs -/

omit [Monitor N M O NE] in
/-- A committed action was attempted. -/
theorem length_allCommitted (tr : List (Recorded M S N E O ME SE NE)) :
    (allCommitted tr).length ≤ tr.countP attempts := by
  induction tr with
  | nil => exact le_rfl
  | cons l rest ih =>
    have hone : (committedBy l).length ≤ if attempts l = true then 1 else 0 := by
      rcases committedBy_cases l with hnil | ⟨entry, hentry⟩
      · simp [hnil]
      · have hattempts : attempts l = true := by
          obtain ⟨sim, call, reply⟩ := l
          cases call with
          | inject | injectAfter | injectAt => cases hentry
          | step =>
            cases hcommit : sim.commitment with
            | none => simp [committedBy_none hcommit] at hentry
            | some c =>
              obtain ⟨started, callback, hattempt, -⟩ := commitment_attempt hcommit
              simp only [attempts, hattempt, Option.isSome_some]
        rw [if_pos hattempts, hentry, List.length_singleton]
    rw [allCommitted, List.flatMap_cons, List.length_append, List.countP_cons, Nat.add_comm]
    exact Nat.add_le_add ih hone

omit [Monitor N M O NE] in
theorem entriesOf_snoc (tr : List (Recorded M S N E O ME SE NE)) (l : Recorded M S N E O ME SE NE)
    (duty : DutyId) : entriesOf (tr ++ [l]) duty = entriesOf tr duty
      ++ (committedBy l).filter fun entry => entry.metadata.key.duty = duty := by
  rw [entriesOf, allCommitted_snoc, List.filter_append]
  rfl

/-- The state of every duty is folded from its entries. -/
theorem run_states {tr : List (Recorded M S N E O ME SE NE)} {sim : Simulation M S N E}
    (h : (system M S N E O ME SE NE).recording.Run tr sim) {duty : DutyId} {state : DutyState}
    (hstate : sim.states.get? duty = some state) : state = .after (entriesOf tr duty) := by
  suffices sim.Sound ∧ ∀ duty state, sim.states.get? duty = some state →
      state = .after (entriesOf tr duty) from this.2 duty state hstate
  refine h.invariant (I := fun tr sim => sim.Sound ∧ ∀ duty state,
    sim.states.get? duty = some state → state = .after (entriesOf tr duty)) (fun hinit => ?_) ?_
  · obtain ⟨_, _, _, _, topology, _, _, hbuild⟩ := hinit
    refine ⟨withParts_sound hbuild, fun duty state hstate => ?_⟩
    rw [withParts_eq hbuild] at hstate
    obtain ⟨_, -, heq⟩ := List.mem_map.mp (OrderedMap.mem_entries.mpr hstate)
    exact (Prod.mk.inj heq).2.symm
  · rintro tr sim ⟨sim₁, call, reply⟩ sim' - ⟨hs, hstates⟩ ⟨hl, hexec⟩
    obtain rfl : sim = sim₁ := hl.symm
    have he := executes_of_exec hs hexec
    refine ⟨he.sound hs, fun duty state hstate => ?_⟩
    rw [entriesOf_snoc]
    -- a call that commits nothing leaves every state and every list of entries alone
    have hidle : committedBy (sim, call, reply) = [] → sim'.states = sim.states →
        state = .after (entriesOf tr duty ++ (committedBy (sim, call, reply)).filter
          fun entry => entry.metadata.key.duty = duty) := by
      intro hnil hsame
      rw [hnil, List.filter_nil, List.append_nil]
      exact hstates duty state (hsame ▸ hstate)
    cases he with
    | injected hcall hi =>
      refine hidle (committedBy_injects hcall) ?_
      cases hi <;> rfl
    | stepped ht =>
      rcases ht.states hs with ⟨hnone, hsame⟩ | ⟨metadata, turn, before, hsome, hbefore, hinsert⟩
      · exact hidle (committedBy_none hnone) hsame
      · rw [committedBy_some hsome]
        rw [hinsert, OrderedMap.get?_insert] at hstate
        by_cases hduty : duty = metadata.key.duty
        · subst hduty
          rw [if_pos rfl] at hstate
          rw [List.filter_cons_of_pos (by simp), List.filter_nil, DutyState.after_snoc,
            ← hstates _ before hbefore]
          exact (Option.some_inj.mp hstate).symm
        · rw [if_neg hduty] at hstate
          rw [List.filter_cons_of_neg (by simpa using Ne.symm hduty), List.filter_nil,
            List.append_nil]
          exact hstates duty state hstate

/-- **A duty's state is its history**: in every reachable simulation the interest of a duty is
the answer to its last committed action, its counters are the numbers of turns and of deliveries
that the run committed for it, and it has stopped if and only if one of them was a stop. -/
theorem duty_history {tr : List (Recorded M S N E O ME SE NE)} {sim : Simulation M S N E}
    (h : (system M S N E O ME SE NE).recording.Run tr sim) {duty : DutyId} {state : DutyState}
    (hstate : sim.states.get? duty = some state) :
    state.next = ((entriesOf tr duty).getLast?.map fun entry => entry.turn.next).getD .now ∧
    state.turns.val = (entriesOf tr duty).countP (fun entry => entry.delivered.isNone) ∧
    state.deliveries.val = (entriesOf tr duty).countP (fun entry => entry.delivered.isSome) ∧
    (duty ∈ sim.stopped ↔ ∃ entry ∈ entriesOf tr duty, entry.turn.next = .stop) := by
  have hcounts := run_counts h
  have hlength : (entriesOf tr duty).length < 2 ^ 64 := by
    have hfilter : (entriesOf tr duty).length ≤ (allCommitted tr).length := List.length_filter_le ..
    have hall := (length_allCommitted tr).trans hcounts.total.le
    have hlt := sim.actions.isLt
    omega
  obtain ⟨hnext, hturns, hdeliveries⟩ := DutyState.after_eq _ hlength
  rw [← run_states h hstate] at hnext hturns hdeliveries
  refine ⟨hnext, hturns, hdeliveries, ?_⟩
  rw [hcounts.sound.stopped]
  constructor
  · rintro ⟨state', hstate', hstop⟩
    obtain rfl : state = state' := Option.some_inj.mp (hstate.symm.trans hstate')
    rw [hnext] at hstop
    cases hlast : (entriesOf tr duty).getLast? with
    | none => simp [hlast] at hstop
    | some entry =>
      rw [hlast] at hstop
      exact ⟨entry, List.mem_of_getLast? hlast, hstop⟩
  · rintro ⟨entry, hentry, hstop⟩
    obtain ⟨hmem, hduty⟩ := List.mem_filter.mp hentry
    rw [← hcounts.sound.stopped, ← of_decide_eq_true hduty]
    exact (run_chronicle h).stopped entry hmem hstop

/-- A duty that is handed an event, has a turn and stops in it. -/
theorem duty_history_stopped :
    let calls : List (Call Unit) := [.inject 1 (), .step, .step]
    let world : Simulation (Playback Unit Unit Empty) Fifo NoopMonitor Unit :=
      Playback.world [.done (.ok ⟨1, .now⟩)] ⟨⟩ ⟨⟩
    ∃ state, (world.after calls).states.get? 1 = some state ∧ state.turns = 1 ∧
      state.deliveries = 1 ∧ ∃ entry ∈ entriesOf
        (world.history calls : List (Recorded _ _ _ _ Unit Empty Empty Empty)) 1,
          entry.turn.next = .stop := by
  intro calls world
  have hstate : (world.after calls).states.get? 1 = some ⟨.stop, 1, 1⟩ := by decide +kernel
  have hrun := Playback.recorded_world
    ([.done (.ok ⟨1, .now⟩)] : List (Program Unit Unit (Returned Turn Empty))) Fifo.mk
    NoopMonitor.mk calls
  obtain ⟨-, -, -, hstopped⟩ := duty_history hrun hstate
  exact ⟨_, hstate, rfl, rfl, hstopped.mp (by decide +kernel)⟩

end Simulation

end Calandria
