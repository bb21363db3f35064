/-
Exact finite scripts.

`ExactScript::try_new` measures a list of expected requests and response plans
against three limits; `respond` hands out the plan of the front step when the
request is the one expected, and otherwise refuses without consuming it.

* `ScriptStep.bytes`, `outcomeCount`, `byteCount` — what a list of steps retains,
  in exact arithmetic;
* `FirstViolated` — which check a rejected list fails first;
* `ExactScript.Remains` — the steps a script still holds, each beside its measure;
* `ExactScript.respond_spec`, `respondAll_spec` — one request, and a sequence;
* `ExactScript.script_exact` — construction and matching together.
-/
import Calandria.Matching
import Calandria.Timeline

namespace Calandria

/-! ### Steps and limits -/

/-- Finite outcomes produced by one scripted capability request. -/
structure Plan (R : Type) where
  outcomes : List (Planned R)

/-- One exact scripted request and its owned response plan. -/
structure ScriptStep (Q R : Type) where
  expected : Q
  response : Plan R

/-- Hard ownership limits for one exact finite script. -/
structure ScriptLimits where
  steps : NonZeroUsize
  outcomes : NonZeroUsize
  retainedBytes : RetainedBytes

/-- Why an exact finite script could not retain its supplied steps. -/
inductive ScriptBuildFailure
  | stepCapacity (limit : NonZeroUsize) (actual : ℕ)
  | outcomeCapacity (limit : NonZeroUsize) (actual : ℕ)
  | outcomeCountOverflow
  | retainedByteOverflow
  | retainedByteCapacity (limit actual : RetainedBytes)
  deriving DecidableEq

/-- Construction failure retaining ownership of every supplied script step. -/
structure ScriptBuildError (Q R : Type) where
  steps : List (ScriptStep Q R)
  failure : ScriptBuildFailure

/-- Why an exact scripted request did not produce a response plan. -/
inductive ScriptFailure
  | exhausted
  | mismatch
  deriving DecidableEq

/-- The panics of `ExactScript::respond`. -/
inductive ScriptPanic
  /-- "matched script step must remain present" -/
  | stepLost
  /-- "script retained-byte accounting must be exact" -/
  | retainedAccounting
  deriving DecidableEq

/-- A step beside its construction-time measurement. -/
structure MeasuredStep (Q R : Type) where
  step : ScriptStep Q R
  retained : RetainedBytes

/-- Count- and byte-bounded exact finite capability script. -/
structure ExactScript (Q R : Type) where
  limits : ScriptLimits
  retained : RetainedBytes
  steps : List (MeasuredStep Q R)

variable {Q R : Type}

/-! ### Construction -/

/-- `usize::checked_add` of a count and a length. -/
def checkedCount (total count : ℕ) : Option ℕ :=
  if total + count < 2 ^ 64 then some (total + count) else none

/-- The loop of `count_outcomes`. -/
def countFrom (total : ℕ) : List (ScriptStep Q R) → Except ScriptBuildFailure ℕ
  | [] => .ok total
  | step :: steps =>
    match checkedCount total step.response.outcomes.length with
    | none => .error .outcomeCountOverflow
    | some next => countFrom next steps

def countOutcomes (steps : List (ScriptStep Q R)) : Except ScriptBuildFailure ℕ :=
  countFrom 0 steps

def outcomeCount (steps : List (ScriptStep Q R)) : ℕ :=
  (steps.map fun step => step.response.outcomes.length).sum

@[simp] theorem outcomeCount_cons (step : ScriptStep Q R) (steps : List (ScriptStep Q R)) :
    outcomeCount (step :: steps) = step.response.outcomes.length + outcomeCount steps :=
  List.sum_cons

/-- Counting from a total is exact, and fails as soon as a `usize` cannot hold it. -/
theorem countFrom_eq {total : ℕ} (ht : total < 2 ^ 64) (steps : List (ScriptStep Q R)) :
    countFrom total steps
      = if total + outcomeCount steps < 2 ^ 64 then .ok (total + outcomeCount steps)
        else .error .outcomeCountOverflow := by
  induction steps generalizing total with
  | nil =>
    rw [show outcomeCount ([] : List (ScriptStep Q R)) = 0 from rfl, Nat.add_zero, if_pos ht]
    rfl
  | cons step steps ih =>
    rw [countFrom, checkedCount, outcomeCount_cons, ← Nat.add_assoc]
    by_cases hnext : total + step.response.outcomes.length < 2 ^ 64
    · rw [if_pos hnext]
      exact ih hnext
    · rw [if_neg hnext, if_neg (by omega)]

section Measured

variable [Retained Q] [Retained R]

/-- The loop of `measure_step`. -/
def measureFrom (total : RetainedBytes) : List (Planned R) → Option RetainedBytes
  | [] => some total
  | outcome :: outcomes =>
    match total.checkedAdd (Retained.retainedBytes outcome.outcome) with
    | none => none
    | some next => measureFrom next outcomes

def measureStep (step : ScriptStep Q R) : Option RetainedBytes :=
  measureFrom (Retained.retainedBytes step.expected) step.response.outcomes

/-- The loop of `measure_steps`. -/
def measureStepsFrom (total : RetainedBytes) (measurements : List RetainedBytes) :
    List (ScriptStep Q R) → Except ScriptBuildFailure (RetainedBytes × List RetainedBytes)
  | [] => .ok (total, measurements)
  | step :: steps =>
    match measureStep step with
    | none => .error .retainedByteOverflow
    | some measured =>
      match total.checkedAdd measured with
      | none => .error .retainedByteOverflow
      | some next => measureStepsFrom next (measurements ++ [measured]) steps

def measureSteps (steps : List (ScriptStep Q R)) :
    Except ScriptBuildFailure (RetainedBytes × List RetainedBytes) :=
  measureStepsFrom 0 [] steps

namespace ExactScript

/-- Retains all supplied steps or returns them unchanged on rejection. -/
def tryNew (limits : ScriptLimits) (steps : List (ScriptStep Q R)) :
    Except (ScriptBuildError Q R) (ExactScript Q R) :=
  if limits.steps.get.val < steps.length then
    .error ⟨steps, .stepCapacity limits.steps steps.length⟩
  else
    match countOutcomes steps with
    | .error failure => .error ⟨steps, failure⟩
    | .ok outcomes =>
      if limits.outcomes.get.val < outcomes then
        .error ⟨steps, .outcomeCapacity limits.outcomes outcomes⟩
      else
        match measureSteps steps with
        | .error failure => .error ⟨steps, failure⟩
        | .ok (retained, measurements) =>
          if limits.retainedBytes < retained then
            .error ⟨steps, .retainedByteCapacity limits.retainedBytes retained⟩
          else
            .ok ⟨limits, retained, List.zipWith MeasuredStep.mk steps measurements⟩

/-- Consumes the next response only when the request matches exactly. -/
def respond [BEq Q] (self : ExactScript Q R) (request : Q) :
    Except ScriptPanic (ExactScript Q R × Except ScriptFailure (Plan R)) :=
  match self.steps.head? with
  | none => .ok (self, .error .exhausted)
  | some next =>
    if next.step.expected != request then .ok (self, .error .mismatch)
    else
      match self.steps with
      | [] => .error .stepLost
      | measured :: steps =>
        match self.retained.checkedSub measured.retained with
        | none => .error .retainedAccounting
        | some retained => .ok ({ self with retained, steps }, .ok measured.step.response)

/-- One request after another. -/
def respondAll [BEq Q] (self : ExactScript Q R) :
    List Q → Except ScriptPanic (ExactScript Q R × List (Except ScriptFailure (Plan R)))
  | [] => .ok (self, [])
  | request :: requests => do
    let (self, reply) ← self.respond request
    let (self, replies) ← self.respondAll requests
    return (self, reply :: replies)

end ExactScript

/-! ### What steps retain -/

/-- The bytes of the outcomes of one plan. -/
def outcomeBytes (outcomes : List (Planned R)) : ℕ :=
  (outcomes.map fun outcome => (Retained.retainedBytes outcome.outcome).val).sum

def ScriptStep.bytes (step : ScriptStep Q R) : ℕ :=
  (Retained.retainedBytes step.expected).val + outcomeBytes step.response.outcomes

def byteCount (steps : List (ScriptStep Q R)) : ℕ := (steps.map ScriptStep.bytes).sum

@[simp] theorem outcomeBytes_cons (outcome : Planned R) (outcomes : List (Planned R)) :
    outcomeBytes (outcome :: outcomes)
      = (Retained.retainedBytes outcome.outcome).val + outcomeBytes outcomes :=
  List.sum_cons

@[simp] theorem byteCount_cons (step : ScriptStep Q R) (steps : List (ScriptStep Q R)) :
    byteCount (step :: steps) = step.bytes + byteCount steps :=
  List.sum_cons

/-! ### Checked sums -/

theorem measureFrom_eq (total : RetainedBytes) (outcomes : List (Planned R)) :
    measureFrom total outcomes
      = if h : total.val + outcomeBytes outcomes < 2 ^ 64
        then some ⟨total.val + outcomeBytes outcomes, h⟩ else none := by
  induction outcomes generalizing total with
  | nil =>
    have hfits : total.val + outcomeBytes ([] : List (Planned R)) < 2 ^ 64 := total.isLt
    rw [dif_pos hfits]
    rfl
  | cons outcome outcomes ih =>
    rw [measureFrom]
    cases hadd : total.checkedAdd (Retained.retainedBytes outcome.outcome) with
    | none =>
      have hover := U64.checkedAdd_eq_none.mp hadd
      rw [dif_neg]
      rw [outcomeBytes_cons]
      omega
    | some next =>
      have hnext := U64.checkedAdd_eq_some.mp hadd
      simp only [ih, hnext, outcomeBytes_cons, Nat.add_assoc]

theorem measureStep_eq (step : ScriptStep Q R) :
    measureStep step = if h : step.bytes < 2 ^ 64 then some ⟨step.bytes, h⟩ else none :=
  measureFrom_eq _ _

/-- What the measurements of a list of steps are. -/
def Measures (steps : List (ScriptStep Q R)) (measurements : List RetainedBytes) : Prop :=
  List.Forall₂ (fun step measured => measured.val = step.bytes) steps measurements

/-- Each step is measured exactly as long as the total is representable. -/
theorem measureStepsFrom_ok {steps : List (ScriptStep Q R)} {total : RetainedBytes}
    (h : total.val + byteCount steps < 2 ^ 64) (measurements : List RetainedBytes) :
    ∃ retained measured, measureStepsFrom total measurements steps
        = .ok (retained, measurements ++ measured) ∧
      retained.val = total.val + byteCount steps ∧ Measures steps measured := by
  induction steps generalizing total measurements with
  | nil => exact ⟨total, [], by rw [measureStepsFrom, List.append_nil], rfl, .nil⟩
  | cons step steps ih =>
    rw [byteCount_cons] at h ⊢
    have hbytes : step.bytes < 2 ^ 64 := by omega
    obtain ⟨next, hadd, hnext⟩ :=
      U64.exists_checkedAdd (a := total) (b := ⟨step.bytes, hbytes⟩) (by simp only; omega)
    simp only at hnext
    have hroom : next.val + byteCount steps < 2 ^ 64 := by omega
    obtain ⟨retained, measured, hrest, hval, hmeasures⟩ :=
      ih hroom (measurements ++ [⟨step.bytes, hbytes⟩])
    refine ⟨retained, ⟨step.bytes, hbytes⟩ :: measured, ?_, by omega, .cons rfl hmeasures⟩
    rw [measureStepsFrom, measureStep_eq, dif_pos hbytes]
    simp only [hadd, hrest, List.append_assoc, List.singleton_append]

/-- Wherever a sum overflows, within a step or between two, the exact total does. -/
theorem measureStepsFrom_overflow {steps : List (ScriptStep Q R)} {total : RetainedBytes}
    (h : 2 ^ 64 ≤ total.val + byteCount steps) (measurements : List RetainedBytes) :
    measureStepsFrom total measurements steps = .error .retainedByteOverflow := by
  induction steps generalizing total measurements with
  | nil => exact absurd total.isLt (not_lt.mpr h)
  | cons step steps ih =>
    rw [byteCount_cons] at h
    rw [measureStepsFrom, measureStep_eq]
    by_cases hbytes : step.bytes < 2 ^ 64
    · rw [dif_pos hbytes]
      cases hadd : total.checkedAdd ⟨step.bytes, hbytes⟩ with
      | none => simp only [hadd]
      | some next =>
        have hnext : next.val = total.val + step.bytes := U64.checkedAdd_eq_some.mp hadd
        simp only [hadd]
        exact ih (by omega) _
    · rw [dif_neg hbytes]

theorem zipWith_step {steps : List (ScriptStep Q R)} {measurements : List RetainedBytes}
    (h : Measures steps measurements) :
    (List.zipWith MeasuredStep.mk steps measurements).map MeasuredStep.step = steps := by
  induction h with
  | nil => rfl
  | cons _ _ ih => rw [List.zipWith_cons_cons, List.map_cons, ih]

theorem zipWith_measured {steps : List (ScriptStep Q R)} {measurements : List RetainedBytes}
    (h : Measures steps measurements) :
    ∀ m ∈ List.zipWith MeasuredStep.mk steps measurements, m.retained.val = m.step.bytes := by
  induction h with
  | nil => exact fun _ hm => absurd hm List.not_mem_nil
  | cons hval _ ih =>
    intro m hm
    rcases List.mem_cons.mp hm with rfl | hrest
    · exact hval
    · exact ih m hrest

namespace ExactScript

/-! ### Construction is exact -/

/-- The limits a list of steps is within. -/
def Fits (limits : ScriptLimits) (steps : List (ScriptStep Q R)) : Prop :=
  steps.length ≤ limits.steps.get.val ∧ outcomeCount steps ≤ limits.outcomes.get.val ∧
    byteCount steps ≤ limits.retainedBytes.val

/-- The check that a list of steps fails first, with the data it reports. -/
def FirstViolated (limits : ScriptLimits) (steps : List (ScriptStep Q R)) :
    ScriptBuildFailure → Prop
  | .stepCapacity limit actual =>
    limits.steps.get.val < steps.length ∧ limit = limits.steps ∧ actual = steps.length
  | .outcomeCountOverflow =>
    steps.length ≤ limits.steps.get.val ∧ 2 ^ 64 ≤ outcomeCount steps
  | .outcomeCapacity limit actual =>
    steps.length ≤ limits.steps.get.val ∧ outcomeCount steps < 2 ^ 64 ∧
      limits.outcomes.get.val < outcomeCount steps ∧ limit = limits.outcomes ∧
      actual = outcomeCount steps
  | .retainedByteOverflow =>
    steps.length ≤ limits.steps.get.val ∧ outcomeCount steps ≤ limits.outcomes.get.val ∧
      2 ^ 64 ≤ byteCount steps
  | .retainedByteCapacity limit actual =>
    steps.length ≤ limits.steps.get.val ∧ outcomeCount steps ≤ limits.outcomes.get.val ∧
      limits.retainedBytes.val < byteCount steps ∧ limit = limits.retainedBytes ∧
      actual.val = byteCount steps

/-- The steps a script still holds, each beside its own measure, and their exact sum. -/
structure Remains (script : ExactScript Q R) (steps : List (ScriptStep Q R)) : Prop where
  steps_eq : script.steps.map MeasuredStep.step = steps
  measured : ∀ m ∈ script.steps, m.retained.val = m.step.bytes
  retained_eq : script.retained.val = byteCount steps

/-- What construction returns. -/
def Constructed (limits : ScriptLimits) (steps : List (ScriptStep Q R)) :
    Except (ScriptBuildError Q R) (ExactScript Q R) → Prop
  | .ok script => Fits limits steps ∧ script.limits = limits ∧ script.Remains steps
  | .error error => error.steps = steps ∧ FirstViolated limits steps error.failure

theorem tryNew_spec (limits : ScriptLimits) (steps : List (ScriptStep Q R)) :
    Constructed limits steps (tryNew limits steps) := by
  rw [tryNew]
  split_ifs with hsteps
  · exact ⟨rfl, hsteps, rfl, rfl⟩
  rw [not_lt] at hsteps
  rw [countOutcomes, countFrom_eq (Nat.two_pow_pos 64), Nat.zero_add]
  by_cases hcount : outcomeCount steps < 2 ^ 64
  · simp only [if_pos hcount]
    split_ifs with hcapacity
    · exact ⟨rfl, hsteps, hcount, hcapacity, rfl, rfl⟩
    rw [not_lt] at hcapacity
    by_cases hbytes : byteCount steps < 2 ^ 64
    · have hroom : (0 : RetainedBytes).val + byteCount steps < 2 ^ 64 := by
        rwa [Fin.val_zero, Nat.zero_add]
      obtain ⟨retained, measured, hrun, hval, hmeasures⟩ := measureStepsFrom_ok hroom []
      rw [Fin.val_zero, Nat.zero_add] at hval
      simp only [measureSteps, hrun, List.nil_append]
      split_ifs with hlimit
      · rw [Fin.lt_def, hval] at hlimit
        exact ⟨rfl, hsteps, hcapacity, hlimit, rfl, hval⟩
      · rw [Fin.lt_def, hval, not_lt] at hlimit
        exact ⟨⟨hsteps, hcapacity, hlimit⟩, rfl, zipWith_step hmeasures,
          zipWith_measured hmeasures, hval⟩
    · have hover : 2 ^ 64 ≤ (0 : RetainedBytes).val + byteCount steps := by
        rw [Fin.val_zero]
        omega
      simp only [measureSteps, measureStepsFrom_overflow hover]
      exact ⟨rfl, hsteps, hcapacity, not_lt.mp hbytes⟩
  · simp only [if_neg hcount]
    exact ⟨rfl, hsteps, not_lt.mp hcount⟩

/-- A list within the limits fails no check. -/
theorem FirstViolated.not_fits {limits : ScriptLimits} {steps : List (ScriptStep Q R)}
    {failure : ScriptBuildFailure} (h : FirstViolated limits steps failure) :
    ¬ Fits limits steps := by
  rintro ⟨hsteps, houtcomes, hbytes⟩
  have houtcomes' := limits.outcomes.get.isLt
  have hbytes' := limits.retainedBytes.isLt
  cases failure with
  | stepCapacity limit actual =>
    obtain ⟨hover, -⟩ := h
    omega
  | outcomeCapacity limit actual =>
    obtain ⟨-, -, hover, -⟩ := h
    omega
  | outcomeCountOverflow =>
    obtain ⟨-, hover⟩ := h
    omega
  | retainedByteOverflow =>
    obtain ⟨-, -, hover⟩ := h
    omega
  | retainedByteCapacity limit actual =>
    obtain ⟨-, -, hover, -⟩ := h
    omega

/-- Construction succeeds exactly on the lists within the limits. -/
theorem tryNew_ok_iff (limits : ScriptLimits) (steps : List (ScriptStep Q R)) :
    (∃ script, tryNew limits steps = .ok script) ↔ Fits limits steps := by
  have hspec := tryNew_spec limits steps
  cases hnew : tryNew limits steps with
  | ok script =>
    rw [hnew] at hspec
    exact iff_of_true ⟨script, rfl⟩ hspec.1
  | error error =>
    rw [hnew] at hspec
    exact iff_of_false (by simp) hspec.2.not_fits

/-! ### Matching -/

variable [BEq Q]

/-- The steps are met in order among the requests. -/
def Met (steps : List (ScriptStep Q R)) (requests : List Q) : Prop :=
  List.SublistForall₂ (fun step request => (step.expected == request) = true) steps requests

/-- How many steps some requests consume. -/
def consumed (steps : List (ScriptStep Q R)) (requests : List Q) : ℕ :=
  Matching.matched (fun step request => (step.expected == request) = true) steps requests

/-- What one request does to the steps that remain. -/
def Answered (self : ExactScript Q R) (steps : List (ScriptStep Q R)) (request : Q)
    (after : ExactScript Q R) : Except ScriptFailure (Plan R) → Prop
  | .ok plan => ∃ step rest, steps = step :: rest ∧ (step.expected == request) = true ∧
      plan = step.response ∧ after.limits = self.limits ∧ after.Remains rest
  | .error .exhausted => steps = [] ∧ after = self
  | .error .mismatch => ∃ step rest, steps = step :: rest ∧ (step.expected == request) = false ∧
      after = self

theorem respond_spec {self : ExactScript Q R} {steps : List (ScriptStep Q R)}
    (h : self.Remains steps) (request : Q) :
    ∃ after reply, self.respond request = .ok (after, reply) ∧
      Answered self steps request after reply := by
  obtain ⟨rfl, hmeasured, hretained⟩ := h
  rw [respond]
  cases hsteps : self.steps with
  | nil => exact ⟨self, .error .exhausted, rfl, rfl, rfl⟩
  | cons measured rest =>
    rw [hsteps] at hmeasured hretained
    simp only [List.head?_cons, bne]
    cases hmatch : measured.step.expected == request with
    | false => exact ⟨self, .error .mismatch, rfl, measured.step, _, rfl, hmatch, rfl⟩
    | true =>
      have hbytes := hmeasured measured List.mem_cons_self
      rw [List.map_cons, byteCount_cons] at hretained
      obtain ⟨retained, hsub, hval⟩ :=
        U64.exists_checkedSub (a := self.retained) (b := measured.retained) (by omega)
      refine ⟨{ self with retained, steps := rest }, .ok measured.step.response, ?_,
        measured.step, _, rfl, hmatch, rfl, rfl, ?_⟩
      · simp [hsub]
      · refine ⟨rfl, fun m hm => hmeasured m (List.mem_cons_of_mem _ hm), ?_⟩
        show retained.val = _
        omega

/-- A sequence of requests consumes the longest prefix of steps it meets. -/
theorem respondAll_spec {self : ExactScript Q R} {steps : List (ScriptStep Q R)}
    (h : self.Remains steps) (requests : List Q) :
    ∃ after replies, self.respondAll requests = .ok (after, replies) ∧
      after.limits = self.limits ∧ after.Remains (steps.drop (consumed steps requests)) ∧
      replies.length = requests.length ∧
      replies.filterMap Except.toOption
        = (steps.take (consumed steps requests)).map ScriptStep.response := by
  induction requests generalizing self steps with
  | nil =>
    have hnone : consumed steps ([] : List Q) = 0 := by
      cases steps <;> rfl
    rw [hnone]
    exact ⟨self, [], rfl, rfl, h, rfl, rfl⟩
  | cons request requests ih =>
    obtain ⟨next, reply, hrespond, hreply⟩ := respond_spec h request
    cases reply with
    | ok plan =>
      obtain ⟨step, rest, rfl, hmatch, rfl, hlimits, hnext⟩ := hreply
      obtain ⟨after, replies, hrun, hlimits', hafter, hlen, hreplies⟩ := ih hnext
      have hconsumed : consumed (step :: rest) (request :: requests)
          = consumed rest requests + 1 := if_pos hmatch
      refine ⟨after, .ok step.response :: replies, ?_, hlimits'.trans hlimits, ?_, ?_, ?_⟩
      · rw [respondAll, hrespond]
        simp only [bind, Except.bind, hrun]
        rfl
      · rw [hconsumed, List.drop_succ_cons]
        exact hafter
      · rw [List.length_cons, List.length_cons, hlen]
      · rw [hconsumed, List.take_succ_cons, List.map_cons, ← hreplies]
        rfl
    | error failure =>
      have hsame : next = self ∧ consumed steps (request :: requests) = consumed steps requests := by
        cases failure with
        | exhausted =>
          obtain ⟨rfl, rfl⟩ := hreply
          refine ⟨rfl, ?_⟩
          cases requests <;> rfl
        | mismatch =>
          obtain ⟨step, rest, rfl, hmatch, rfl⟩ := hreply
          exact ⟨rfl, if_neg (by simp [hmatch])⟩
      obtain ⟨rfl, hconsumed⟩ := hsame
      obtain ⟨after, replies, hrun, hlimits, hafter, hlen, hreplies⟩ := ih h
      refine ⟨after, .error failure :: replies, ?_, hlimits, ?_, ?_, ?_⟩
      · rw [respondAll, hrespond]
        simp only [bind, Except.bind, hrun]
        rfl
      · rw [hconsumed]
        exact hafter
      · rw [List.length_cons, List.length_cons, hlen]
      · rw [hconsumed, ← hreplies]
        rfl

/-- **Exact scripts**: construction succeeds exactly on the lists of steps within
the limits, and otherwise hands all of them back with the check they fail first;
after it, any sequence of requests is answered without a panic by the plans of the
longest prefix of steps it meets in order, what remains is retained exactly, and a
request that is refused changes nothing. -/
theorem script_exact (limits : ScriptLimits) (steps : List (ScriptStep Q R)) :
    ((∃ script, tryNew limits steps = .ok script) ↔ Fits limits steps) ∧
    (∀ error, tryNew limits steps = .error error →
      error.steps = steps ∧ FirstViolated limits steps error.failure) ∧
    ∀ script, tryNew limits steps = .ok script → ∀ requests : List Q,
      ∃ k after replies, script.respondAll requests = .ok (after, replies) ∧
        (k ≤ steps.length ∧ Met (steps.take k) requests ∧
          ∀ k' ≤ steps.length, Met (steps.take k') requests → k' ≤ k) ∧
        replies.length = requests.length ∧
        replies.filterMap Except.toOption = (steps.take k).map ScriptStep.response ∧
        after.limits = limits ∧ after.Remains (steps.drop k) ∧
        ∀ request, ∃ next reply, after.respond request = .ok (next, reply) ∧
          Answered after (steps.drop k) request next reply := by
  have hspec := tryNew_spec limits steps
  refine ⟨tryNew_ok_iff limits steps, ?_, ?_⟩
  · intro error herror
    rw [herror] at hspec
    exact hspec
  · intro script hscript requests
    rw [hscript] at hspec
    obtain ⟨-, hlimits, hremains⟩ := hspec
    obtain ⟨after, replies, hrun, hlimits', hafter, hlen, hreplies⟩ :=
      respondAll_spec hremains requests
    refine ⟨consumed steps requests, after, replies, hrun, ⟨Matching.matched_le _ _,
      Matching.take_matched _ _, fun k' hk' hmet => Matching.le_matched hk' hmet⟩, hlen,
      hreplies, hlimits'.trans hlimits, hafter, fun request => respond_spec hafter request⟩

end ExactScript

end Measured

end Calandria
