/-
Replay soundness.

Whatever model, limits, start and injections a replay is run with, the actions
its simulation commits are a prefix of the trace (`run_replaying`): between two
actions of a live simulation the replay stands exactly at the next entry.  From
there every departure of the world from the trace ends the run with the
divergence that names it (`Departures`), and completion means that the whole
trace was committed (`replay_sound`).
-/
import Calandria.Replay
import Calandria.VirtualTime

namespace Calandria

/-- The entries that the steps of a run committed. -/
def committedEntries {E O ME NE SE : Type} (tr : List (Call E × Reply E O ME NE SE)) :
    List TraceEntry :=
  tr.filterMap fun l =>
    match l.2 with
    | .stepped (.ok (.action record)) => some (.fromRecord record)
    | _ => none

theorem committedEntries_append {E O ME NE SE : Type}
    (tr tr' : List (Call E × Reply E O ME NE SE)) :
    committedEntries (tr ++ tr') = committedEntries tr ++ committedEntries tr' :=
  List.filterMap_append

namespace Simulation

variable {M N E O ME NE : Type}

/-- A halted simulation is not live. -/
theorem halt_not_live {S SE : Type} {sim : Simulation M S N E} {r : StepReturn O ME NE SE}
    (h : ∀ step, r ≠ .ok step) : ¬ (sim.halt r).Live := by
  intro hlive
  cases r with
  | ok step => exact h step rfl
  | err error => cases hlive.active
  | unwound boundary => cases hlive.unpoisoned

variable [Retained E] [Retained O] [Model M E O ME] [Monitor N M O NE]

/-! ### What a step of a live, aligned replay does -/

omit [Retained E] [Retained O] [Monitor N M O NE] in
/-- The begun action is the next entry's. -/
theorem Begins.replayed {sim started : Simulation M Replay N E} {callback : Callback M E O ME}
    {k : ℕ} (h : sim.Begins started callback) (ha : sim.scheduler.Aligned k) :
    ∃ entry, sim.scheduler.entries[k]? = some entry ∧ entry.metadata.moment = sim.now ∧
      callback.metadata.key = entry.metadata.key ∧ entry.metadata.key ∈ sim.enabled ∧
      started.scheduler = { sim.scheduler with awaitingCommit := true } := by
  have hchoose := h.choice
  rcases ha.choose_cases sim.now sim.enabled with
    ⟨divergence, hdiverges, _⟩ | ⟨entry, hentry, hmoment, hready, hok⟩
  · cases (Prod.mk.inj (hdiverges.symm.trans hchoose)).2
  · obtain ⟨hscheduler, hkey⟩ := Prod.mk.inj (hok.symm.trans hchoose)
    exact ⟨entry, hentry, hmoment, by simpa using hkey.symm, hready, hscheduler.symm⟩

/-- The results that only a misused or broken replay could cause. -/
def Internal : StepReturn O ME NE ReplayDivergence → Prop
  | .err (.scheduler (.pendingCommit _)) => True
  | .err (.scheduler (.unexpectedCommit _ _)) => True
  | .err (.invalidSelection _) => True
  | .unwound .choose | .unwound .committed | .unwound .finished => True
  | _ => False

/-- What the hooks of an aligned replay can report. -/
theorem Transition.reports {sim sim' : Simulation M Replay N E}
    {r : StepReturn O ME NE ReplayDivergence} {k : ℕ} (h : sim.Transition r sim')
    (hs : sim.Sound) (ha : sim.Live → sim.scheduler.Aligned k) :
    ¬ Internal r ∧ ∀ divergence, r = .err (.scheduler divergence) → divergence.Early →
      sim.attempt = none ∧ sim' = { sim with ready := sim.enabled, phase := .failed } := by
  have hquiet : ∀ {r : StepReturn O ME NE ReplayDivergence}, (∀ d, r ≠ .err (.scheduler d)) →
      ∀ divergence, r = .err (.scheduler divergence) → divergence.Early →
        sim.attempt = none ∧ sim' = { sim with ready := sim.enabled, phase := .failed } :=
    fun hne d hd => absurd hd (hne d)
  cases h with
  | poisoned | inactive | limited | completed | quiescent | timeLimited | advanced =>
    exact ⟨id, hquiet (by simp)⟩
  | refused hlive _ _ hchoose href =>
    have hnone : ∀ {divergence}, Scheduler.choose sim.scheduler sim.now sim.enabled
        = (sim.scheduler, .err divergence) → sim.attempt = none := by
      refine fun hdiverges => attempt_eq_none hs ?_
      rintro started callback ⟨_, key, selected, hsel, _⟩
      cases (Prod.mk.inj (hdiverges.symm.trans hsel.choice)).2
    rcases (ha hlive).choose_cases sim.now sim.enabled with
      ⟨divergence, hdiverges, hearly⟩ | ⟨entry, _, _, hready, hok⟩
    · obtain ⟨rfl, rfl⟩ := Prod.mk.inj (hdiverges.symm.trans hchoose)
      cases href
      refine ⟨?_, fun _ _ _ => ⟨hnone hdiverges, rfl⟩⟩
      cases divergence <;> first | exact id | exact hearly.elim
    · obtain ⟨_, rfl⟩ := Prod.mk.inj (hok.symm.trans hchoose)
      cases href with
      | invalid hmem => exact absurd hready hmem
  | rolledBack _ _ _ hab => cases hab <;> exact ⟨id, hquiet (by simp)⟩
  | @committed started callback ctx log model turn updated r sim' hlive hb _ hc hf =>
    have hal := ha hlive
    obtain ⟨entry, hentry, _, _, _, hscheduler⟩ := hb.replayed hal
    have hupdated : updated.scheduler = { sim.scheduler with awaitingCommit := true } := by
      rw [hc.frame, ← hscheduler]
    -- the commit is the next entry's, or reported as another one; neither is a choice
    by_cases heq : (⟨callback.metadata, turn⟩ : TraceEntry) = entry
    · obtain rfl := heq
      obtain ⟨replay', hcommit, _⟩ := hal.committed_ok hentry
      rw [← hupdated] at hcommit
      obtain ⟨-, rfl | ⟨rfl | ⟨source, rfl⟩, -⟩⟩ := hf.of_ok hcommit <;>
        exact ⟨id, hquiet (by simp)⟩
    · have hother := hal.committed_other hentry heq
      rw [← hupdated] at hother
      obtain ⟨rfl, -⟩ := hf.of_err hother
      exact ⟨id, fun d hd hearly => by cases hd; exact hearly.elim⟩
  | finishRefused hlive _ _ _ hfinished href =>
    have hal := ha hlive
    rcases Nat.lt_or_eq_of_le hal.bound with hlt | heq
    · rw [hal.finished_remaining hlt] at hfinished
      obtain ⟨rfl, rfl⟩ := Prod.mk.inj hfinished
      cases href
      exact ⟨id, fun d hd hearly => by cases hd; exact hearly.elim⟩
    · rw [Replay.Aligned.finished_ok (heq ▸ hal)] at hfinished
      obtain ⟨rfl, rfl⟩ := Prod.mk.inj hfinished
      cases href

/-- How a step departs from the trace, with `k` entries committed, and how the
departure is reported. -/
structure Departures (k : ℕ) (sim : Simulation M Replay N E)
    (r : StepReturn O ME NE ReplayDivergence) (sim' : Simulation M Replay N E) : Prop where
  /-- Something is ready although the trace ended. -/
  exhausted : sim.scheduler.entries.length = k → sim.enabled ≠ [] → sim.WithinLimits →
    r = .err (.scheduler (.traceExhausted sim.scheduler.position sim.now sim.enabled.length)) ∧
    sim' = { sim with ready := sim.enabled, phase := .failed }
  /-- The next entry belongs to another moment. -/
  moment : ∀ entry, sim.scheduler.entries[k]? = some entry → sim.enabled ≠ [] →
    sim.WithinLimits → entry.metadata.moment ≠ sim.now →
    r = .err (.scheduler (.moment sim.scheduler.position entry sim.now)) ∧
    sim' = { sim with ready := sim.enabled, phase := .failed }
  /-- The next entry's action is not ready. -/
  unavailable : ∀ entry, sim.scheduler.entries[k]? = some entry → sim.enabled ≠ [] →
    sim.WithinLimits → entry.metadata.moment = sim.now → entry.metadata.key ∉ sim.enabled →
    r = .err (.scheduler
      (.unavailable sim.scheduler.position entry sim.enabled.length)) ∧
    sim' = { sim with ready := sim.enabled, phase := .failed }
  /-- The action is the next entry's; its commit is another pair. -/
  committed : ∀ started callback ctx log model turn, sim.attempt = some (started, callback) →
    callback.program.run (started.context callback.metadata) = .ok (ctx, log, model, .ok turn) →
    ¬ (turn.next = .stop ∧ ctx.pendingFor callback.metadata.key.duty ≠ 0) →
    ∃ entry, sim.scheduler.entries[k]? = some entry ∧
      callback.metadata.key = entry.metadata.key ∧
      (⟨callback.metadata, turn⟩ ≠ entry →
        r = .err (.scheduler
          (.committed sim.scheduler.position entry ⟨callback.metadata, turn⟩)) ∧
        sim'.phase = .failed)
  /-- Every duty stopped before the trace ended. -/
  remaining : sim.AllStopped → k < sim.scheduler.entries.length →
    r = .err (.scheduler (.traceRemaining sim.scheduler.position
      (sim.scheduler.entries.length - k))) ∧
    sim' = { sim with ready := [], phase := .failed }
  /-- What a choice reports precedes the callback and every change. -/
  early : ∀ divergence, r = .err (.scheduler divergence) → divergence.Early →
    sim.attempt = none ∧ sim' = { sim with ready := sim.enabled, phase := .failed }

theorem Transition.departures {sim sim' : Simulation M Replay N E}
    {r : StepReturn O ME NE ReplayDivergence} {k : ℕ} (h : sim.Transition r sim')
    (hs : sim.Sound) (hlive : sim.Live) (ha : sim.scheduler.Aligned k) :
    Departures k sim r sim' := by
  -- a choice that diverges is refused before anything else happens
  have hrefused : ∀ {divergence}, sim.enabled ≠ [] → sim.WithinLimits →
      Scheduler.choose sim.scheduler sim.now sim.enabled = (sim.scheduler, .err divergence) →
      r = .err (.scheduler divergence) ∧
        sim' = { sim with ready := sim.enabled, phase := .failed } := by
    intro divergence hne hw hdiverges
    rcases h.chooses hlive hne hw with ⟨scheduler, choice, hchoose, href, hsim'⟩ |
      ⟨started, callback, hb⟩
    · obtain ⟨rfl, rfl⟩ := Prod.mk.inj (hdiverges.symm.trans hchoose)
      cases href
      exact ⟨rfl, hsim'⟩
    · have hchoose := hb.choice
      cases (Prod.mk.inj (hdiverges.symm.trans hchoose)).2
  refine ⟨fun hend hne hw => ?_, fun entry hentry hne hw hmoment => ?_,
    fun entry hentry hne hw hmoment hready => ?_,
    fun started callback ctx log model turn hattempt hrun hstop => ?_, fun hall hlt => ?_,
    (h.reports hs fun _ => ha).2⟩
  · exact hrefused hne hw (ha.choose_exhausted (List.getElem?_eq_none hend.le) _ _)
  · exact hrefused hne hw (ha.choose_moment hentry hmoment _)
  · exact hrefused hne hw (hmoment ▸ ha.choose_unavailable hentry
      (Bool.eq_false_iff.mpr fun hcontains => hready (ReadySet.mem_of_contains hcontains)))
  -- the callback ran, so only the hook after the commit can object
  · obtain ⟨_, hb⟩ := (attempt_iff hs).mp hattempt
    obtain ⟨entry, hentry, _, hkey, _, hscheduler⟩ := hb.replayed ha
    refine ⟨entry, hentry, hkey, fun hne => ?_⟩
    rcases h.attempted hs with ⟨hnone, _⟩ |
      ⟨_, _, _, _, _, _, _, hattempt', hruns, habort, _⟩ |
      ⟨_, _, _, _, _, _, updated, hattempt', hruns, hc, hf⟩
    · simp [hnone] at hattempt
    · obtain ⟨rfl, rfl⟩ := Prod.mk.inj (Option.some_inj.mp (hattempt.symm.trans hattempt'))
      have hresult := hruns.run.symm.trans hrun
      simp only [Except.ok.injEq, Prod.mk.injEq] at hresult
      obtain ⟨rfl, _, _, rfl⟩ := hresult
      cases habort with
      | stopRejected hnext hpending => exact absurd ⟨hnext, hpending⟩ hstop
    · obtain ⟨rfl, rfl⟩ := Prod.mk.inj (Option.some_inj.mp (hattempt.symm.trans hattempt'))
      have hresult := hruns.run.symm.trans hrun
      simp only [Except.ok.injEq, Prod.mk.injEq, Returned.ok.injEq] at hresult
      obtain ⟨rfl, _, _, rfl⟩ := hresult
      have hupdated : updated.scheduler = { sim.scheduler with awaitingCommit := true } := by
        rw [hc.frame, ← hscheduler]
      have hother := ha.committed_other hentry hne
      rw [← hupdated] at hother
      obtain ⟨rfl, rfl⟩ := hf.of_err hother
      exact ⟨rfl, rfl⟩
  · obtain ⟨scheduler, verdict, hfinished, ⟨rfl, _⟩ | ⟨href, hsim'⟩⟩ := h.finishes hs hlive hall
    · rw [ha.finished_remaining hlt] at hfinished
      cases (Prod.mk.inj hfinished).2
    · rw [ha.finished_remaining hlt] at hfinished
      obtain ⟨rfl, rfl⟩ := Prod.mk.inj hfinished
      cases href
      refine ⟨rfl, hsim'.trans ?_⟩
      rw [built, enabled_of_allStopped hs hall]
      rfl

/-! ### The replay along a run -/

omit [Retained E] [Retained O] [Model M E O ME] [Monitor N M O NE] in
/-- The hooks never touch the trace. -/
theorem Replay.hooks_entries (replay : Replay) :
    (∀ now ready, (Scheduler.choose replay now ready).1.entries = replay.entries) ∧
    (∀ metadata turn, (Scheduler.committed replay metadata turn).1.entries = replay.entries) ∧
    (Scheduler.finished replay).1.entries = replay.entries := by
  refine ⟨fun now ready => ?_, fun metadata turn => ?_, ?_⟩
  · simp only [Scheduler.choose]
    split
    · rfl
    · split
      · rfl
      · split_ifs <;> rfl
  · simp only [Scheduler.committed]
    split
    · rfl
    · split
      · rfl
      · split
        · rfl
        · split
          · rfl
          · split <;> rfl
  · simp only [Scheduler.finished]
    split_ifs <;> rfl

/-- The trace stays, and a replay that is still live moved by one entry exactly
if an action was committed. -/
theorem Transition.replays {sim sim' : Simulation M Replay N E}
    {r : StepReturn O ME NE ReplayDivergence} {k : ℕ} (h : sim.Transition r sim')
    (ha : sim.Live → sim.scheduler.Aligned k) :
    sim'.scheduler.entries = sim.scheduler.entries ∧
    ((∃ record, r = .ok (.action record) ∧
        sim.scheduler.entries[k]? = some (.fromRecord record) ∧
        sim'.scheduler.Aligned (k + 1)) ∨
      (∀ record, r ≠ .ok (.action record)) ∧ (sim'.Live → sim'.scheduler.Aligned k)) := by
  obtain ⟨hchosen, _, hfinish⟩ := Replay.hooks_entries sim.scheduler
  cases h with
  | poisoned => exact ⟨rfl, .inr ⟨by simp, ha⟩⟩
  | inactive => exact ⟨rfl, .inr ⟨by simp, ha⟩⟩
  | limited => exact ⟨rfl, .inr ⟨by simp, fun hlive => by cases hlive.active⟩⟩
  | @refused choice scheduler r hlive _ _ hchoose href =>
    have hentries := hchosen sim.now sim.enabled
    rw [hchoose] at hentries
    have hne : ∀ step, r ≠ .ok step := by cases href <;> simp
    refine ⟨by rw [halt_scheduler]; exact hentries, .inr ⟨fun _ => hne _, fun hlive => ?_⟩⟩
    exact absurd hlive (halt_not_live hne)
  | @rolledBack started callback ctx log model result timeline r hlive hb _ hab _ _ =>
    obtain ⟨_, _, _, _, _, hscheduler⟩ := hb.replayed (ha hlive)
    have hne : ∀ step, r ≠ .ok step := by cases hab <;> simp
    refine ⟨?_, .inr ⟨fun _ => hne _, fun hlive => absurd hlive (halt_not_live hne)⟩⟩
    have hsame := congrArg Replay.entries hscheduler
    rw [halt_scheduler]
    exact hsame
  | @committed started callback ctx log model turn updated r sim' hlive hb _ hc hf =>
    have hal := ha hlive
    obtain ⟨entry, hentry, _, _, _, hscheduler⟩ := hb.replayed hal
    have hupdated : updated.scheduler = { sim.scheduler with awaitingCommit := true } := by
      rw [hc.frame, ← hscheduler]
    by_cases heq : (⟨callback.metadata, turn⟩ : TraceEntry) = entry
    · obtain rfl := heq
      obtain ⟨replay', hcommit, haligned, hentries⟩ := hal.committed_ok hentry
      rw [← hupdated] at hcommit
      -- the replay moves on even if the monitor then fails the step
      obtain ⟨rfl, rfl | ⟨rfl | ⟨source, rfl⟩, hdead⟩⟩ := hf.of_ok hcommit
      · exact ⟨hentries, .inl ⟨_, rfl, hentry, haligned⟩⟩
      · exact ⟨hentries, .inr ⟨by simp, fun hlive => absurd hlive hdead⟩⟩
      · exact ⟨hentries, .inr ⟨by simp, fun hlive => absurd hlive hdead⟩⟩
    · have hother := hal.committed_other hentry heq
      rw [← hupdated] at hother
      obtain ⟨rfl, rfl⟩ := hf.of_err hother
      have hsame := congrArg Replay.entries hupdated
      exact ⟨hsame, .inr ⟨by simp, fun hlive => by cases hlive.active⟩⟩
  | completed _ _ _ _ hfinished =>
    rw [hfinished] at hfinish
    exact ⟨hfinish, .inr ⟨by simp, fun hlive => by cases hlive.active⟩⟩
  | @finishRefused verdict scheduler r _ _ _ _ hfinished href =>
    rw [hfinished] at hfinish
    have hne : ∀ step, r ≠ .ok step := by cases href <;> simp
    refine ⟨by rw [halt_scheduler]; exact hfinish, .inr ⟨fun _ => hne _, fun hlive => ?_⟩⟩
    exact absurd hlive (halt_not_live hne)
  | quiescent hlive => exact ⟨rfl, .inr ⟨by simp, fun _ => ha hlive⟩⟩
  | timeLimited => exact ⟨rfl, .inr ⟨by simp, fun hlive => by cases hlive.active⟩⟩
  | advanced hlive => exact ⟨rfl, .inr ⟨by simp, fun _ => ha hlive⟩⟩

/-- What a run of a replay over `entries` has done so far. -/
structure Replaying (entries : List TraceEntry)
    (tr : List (Call E × Reply E O ME NE ReplayDivergence)) (sim : Simulation M Replay N E) :
    Prop where
  sound : sim.Sound
  trace : sim.scheduler.entries = entries
  committed : committedEntries tr <+: entries
  aligned : sim.Live → sim.scheduler.Aligned (committedEntries tr).length

/-- **The step lemma** of replays. -/
theorem Replaying.next {entries : List TraceEntry}
    {tr : List (Call E × Reply E O ME NE ReplayDivergence)} {sim sim' : Simulation M Replay N E}
    {call : Call E} {reply : Reply E O ME NE ReplayDivergence}
    (h : Replaying entries tr sim) (he : sim.Executes call reply sim') :
    Replaying entries (tr ++ [(call, reply)]) sim' := by
  have hsound := he.sound h.sound
  have hkept : ∀ replay : Reply E O ME NE ReplayDivergence,
      (∀ record, replay ≠ .stepped (.ok (.action record))) →
      committedEntries (tr ++ [(call, replay)]) = committedEntries tr := by
    intro replay hreply
    have hnil : committedEntries [(call, replay)] = [] := by
      refine List.filterMap_eq_nil_iff.mpr fun l hl => ?_
      obtain rfl := List.mem_singleton.mp hl
      split
      · rename_i record hrecord
        exact absurd hrecord (hreply record)
      · rfl
    rw [committedEntries_append, hnil, List.append_nil]
  cases he with
  | @injected _ _ _ result _ _ hi =>
    have hsame := hkept (.injected result) (by simp)
    have hscheduler : sim'.scheduler = sim.scheduler ∧ (sim'.Live → sim.Live) := by
      cases hi with
      | rejected => exact ⟨rfl, id⟩
      | admitted hlive => exact ⟨rfl, fun _ => hlive⟩
    refine ⟨hsound, hscheduler.1 ▸ h.trace, hsame ▸ h.committed, fun hlive => ?_⟩
    rw [hsame, hscheduler.1]
    exact h.aligned (hscheduler.2 hlive)
  | stepped ht =>
    obtain ⟨hentries, ⟨record, rfl, hentry, haligned⟩ | ⟨hother, haligned⟩⟩ := ht.replays h.aligned
    -- the recorded action is the next entry of the trace
    · have hgrown : committedEntries (tr ++ [(Call.step (E := E),
          (.stepped (.ok (.action record)) : Reply E O ME NE ReplayDivergence))])
          = committedEntries tr ++ [.fromRecord record] := by
        rw [committedEntries_append]
        rfl
      refine ⟨hsound, hentries.trans h.trace, ?_, fun _ => ?_⟩
      · rw [hgrown]
        rw [h.trace] at hentry
        obtain ⟨rest, hrest⟩ := h.committed
        rw [← hrest, List.getElem?_append_right le_rfl, Nat.sub_self] at hentry
        cases rest with
        | nil => simp at hentry
        | cons next rest =>
          obtain rfl : next = TraceEntry.fromRecord record := by simpa using hentry
          exact ⟨rest, by rw [← hrest]; simp⟩
      · rw [hgrown, List.length_append, List.length_singleton]
        exact haligned
    · have hsame := hkept (.stepped _)
        fun record hr => hother record (by injection hr)
      exact ⟨hsound, hentries.trans h.trace, hsame ▸ h.committed, hsame ▸ haligned⟩

theorem run_replaying {entries : List TraceEntry} {h : entries.length < 2 ^ 64}
    {id : TimelineId} {now : Moment} {model : M} {topology : Topology} {limits : SimulationLimits}
    {monitor : N} {start sim : Simulation M Replay N E}
    {tr : List (Call E × Reply E O ME NE ReplayDivergence)}
    (hbuild : withParts id now model topology limits (Replay.fromEntries entries h) monitor
      = .ok (.ok start))
    (hrun : Steps (system M Replay N E O ME ReplayDivergence NE).step start tr sim) :
    Replaying entries tr sim := by
  have hscheduler : start.scheduler = Replay.fromEntries entries h := by rw [withParts_eq hbuild]
  refine hrun.invariant ?_ fun _ hr hstep => hr.next (executes_of_exec hr.sound hstep)
  refine ⟨withParts_sound hbuild, ?_, List.nil_prefix, fun _ => ?_⟩
  · rw [hscheduler]
    rfl
  · rw [hscheduler]
    exact Replay.fromEntries_aligned entries h

/-- **Replay soundness**: after any calls on a simulation that replays
`entries`, the committed entries are a prefix of them, at whose end a live
replay stands.  A step from there commits the next entry or reports how it
departs, never fails for a reason of the replay's own, and completes only at
the end of the trace. -/
theorem replay_sound {entries : List TraceEntry} {h : entries.length < 2 ^ 64}
    {id : TimelineId} {now : Moment} {model : M} {topology : Topology} {limits : SimulationLimits}
    {monitor : N} {start sim : Simulation M Replay N E}
    {tr : List (Call E × Reply E O ME NE ReplayDivergence)} {k : ℕ}
    (hbuild : withParts id now model topology limits (Replay.fromEntries entries h) monitor
      = .ok (.ok start))
    (hrun : Steps (system M Replay N E O ME ReplayDivergence NE).step start tr sim)
    (hk : k = (committedEntries tr).length) :
    committedEntries tr = entries.take k ∧ k ≤ entries.length ∧
    (sim.phase = .active → sim.poisoned = false →
      sim.scheduler.position.val = k ∧ sim.scheduler.remaining = entries.length - k) ∧
    sim.scheduler.entries = entries ∧ sim.buildReady = .ok (sim.built, .ok ()) ∧
    ∀ sim' r, sim.step = .ok (sim', r) →
      (sim.phase = .active → sim.poisoned = false → Departures k sim r sim') ∧
      ¬ Internal r ∧ ∀ snapshot, r = .ok (.completed snapshot) → k = entries.length := by
  have hr := run_replaying hbuild hrun
  subst hk
  refine ⟨List.prefix_iff_eq_take.mp hr.committed, hr.committed.length_le,
    fun hactive hunpoisoned => ?_, hr.trace, buildReady_eq hr.sound, fun sim' r hstep => ?_⟩
  · have ha := hr.aligned ⟨hunpoisoned, hactive⟩
    exact ⟨ha.position, hr.trace ▸ ha.remaining⟩
  obtain ⟨sim₁, r₁, hrun₁, ht⟩ :=
    step_cases hr.sound
  obtain ⟨rfl, rfl⟩ := Prod.mk.inj (Except.ok.inj (hstep.symm.trans hrun₁))
  refine ⟨fun hactive hunpoisoned => ?_, (ht.reports hr.sound hr.aligned).1, fun snapshot hok => ?_⟩
  · exact ht.departures hr.sound ⟨hunpoisoned, hactive⟩ (hr.aligned ⟨hunpoisoned, hactive⟩)
  · subst hok
    obtain ⟨hall, hfinished, _⟩ := ht.completes
    have ha := hr.aligned ht.live
    refine le_antisymm hr.committed.length_le (not_lt.mp fun hlt => ?_)
    rw [← hr.trace] at hlt
    rw [ha.finished_remaining hlt] at hfinished
    cases (Prod.mk.inj hfinished).2

/-- Two turns of one duty, the second at another moment than the world below offers. -/
def lateEntries : List TraceEntry :=
  [⟨⟨0, .turn 1, 0, none⟩, ⟨1, .now⟩⟩, ⟨⟨1, .turn 1, 3, none⟩, ⟨0, .stop⟩⟩]

/-- A replay of the two turns over a duty that is ready again at once. -/
def lateWorld : Simulation (Playback Unit Unit Empty) Replay NoopMonitor Unit :=
  Playback.world [.done (.ok ⟨1, .now⟩)] (.fromEntries lateEntries (by decide)) ⟨⟩

theorem replay_sound_late : ∃ sim sim', ∃ r : StepReturn Unit Empty Empty ReplayDivergence,
    lateWorld.step = .ok (sim, .ok (.action ⟨⟨0, .turn 1, 0, none⟩, ⟨1, .now⟩, []⟩)) ∧
      sim.scheduler.position = 1 ∧ sim.step = .ok (sim', r) ∧
      r = .err (.scheduler (.moment 1 ⟨⟨1, .turn 1, 3, none⟩, ⟨0, .stop⟩⟩ 0)) := by
  obtain ⟨sim, hstep, hposition, hphase, hpoisoned, hnow, hready, hwithin, hentries⟩ :
      ∃ sim, (lateWorld.step : Except Panic (_ × StepReturn Unit Empty Empty ReplayDivergence))
          = .ok (sim, .ok (.action ⟨⟨0, .turn 1, 0, none⟩, ⟨1, .now⟩, []⟩)) ∧
        sim.scheduler.position = 1 ∧ sim.phase = .active ∧ sim.poisoned = false ∧ sim.now = 0 ∧
        sim.enabled ≠ [] ∧ sim.WithinLimits ∧ sim.scheduler.entries = lateEntries :=
    ⟨_, rfl, by decide +kernel, by decide +kernel, by decide +kernel, by decide +kernel,
      by decide +kernel, ⟨by decide +kernel, by decide +kernel⟩, by decide +kernel⟩
  have hexec : (system (Playback Unit Unit Empty) Replay NoopMonitor Unit Unit Empty
      ReplayDivergence Empty).step lateWorld
      (.step, .stepped (.ok (.action ⟨⟨0, .turn 1, 0, none⟩, ⟨1, .now⟩, []⟩))) sim := by
    show lateWorld.exec .step = _
    rw [exec, hstep]
    rfl
  have hsound := replay_sound (k := 1) (Playback.world_built _ _ _) (Steps.single hexec) rfl
  have hreplaying := run_replaying (Playback.world_built _ _ _) (Steps.single hexec)
  obtain ⟨sim', r, hstep', _⟩ := step_cases hreplaying.sound
  have hdeparts := (hsound.2.2.2.2.2 sim' r hstep').1 hphase hpoisoned
  refine ⟨sim, sim', r, hstep, hposition, hstep', ?_⟩
  have hnext : sim.scheduler.entries[1]? = some ⟨⟨1, .turn 1, 3, none⟩, ⟨0, .stop⟩⟩ := by
    rw [hentries]
    rfl
  have hmoment := (hdeparts.moment _ hnext hready hwithin (by rw [hnow]; decide)).1
  rwa [hposition, hnow] at hmoment

end Simulation

end Calandria
