/-
The round-robin scheduler.

`RoundRobin` keeps the owner it selected last and goes on in rotated order of the
duties, whatever the ready sets have become in between.

* `RoundRobin.chooses` — a choice is the next owner's first action;
* `RoundRobin.choices_eq` — a sequence of choices visits the owners in rotated order;
* `round_robin_bypass` — so a duty that stays ready waits for one round at most.
-/
import Calandria.Rotation
import Calandria.Simulation

namespace Calandria

/-- Rotates across owners while preserving canonical order within one owner. -/
structure RoundRobin where
  cursor : Option DutyId

instance : Scheduler RoundRobin Empty where
  choose self _ actions :=
    let after := self.cursor.bind fun cursor =>
      ((actions.map ActionKey.duty).filter (cursor < ·)).min?
    let owner := after.or (actions.map ActionKey.duty).min?
    match owner with
    | none => (self, .panicked)
    | some owner =>
      match actions.find? fun action => action.duty = owner with
      | none => (self, .panicked)
      | some action => ({ self with cursor := some owner }, .ok action)

/-! ### Sequences of choices -/

section

variable {S SE : Type} [Scheduler S SE]

/-- The scheduler after choosing from one ready set after another. -/
def Scheduler.after (scheduler : S) : List (Moment × ReadySet) → S
  | [] => scheduler
  | (now, ready) :: rest => Scheduler.after (Scheduler.choose scheduler now ready).1 rest

/-- What it chose. -/
def Scheduler.choices (scheduler : S) : List (Moment × ReadySet) → List (Returned ActionKey SE)
  | [] => []
  | (now, ready) :: rest =>
    let (scheduler, choice) := Scheduler.choose scheduler now ready
    choice :: Scheduler.choices scheduler rest

theorem Scheduler.choices_append (scheduler : S) (offers offers' : List (Moment × ReadySet)) :
    Scheduler.choices scheduler (offers ++ offers')
      = Scheduler.choices scheduler offers
        ++ Scheduler.choices (Scheduler.after scheduler offers) offers' := by
  induction offers generalizing scheduler with
  | nil => rfl
  | cons offer rest ih => exact congrArg _ (ih _)

end

/-- A ready set over the topology: some actions, in canonical order. -/
structure Offered (topology : Topology) (ready : ReadySet) : Prop where
  nonempty : ready ≠ []
  canonical : ready.Pairwise fun a b => a.cmp b = .lt
  known : ∀ key ∈ ready, key.duty ∈ topology.duties

/-- `key` is canonically the first action of its duty. -/
def FirstOfDuty (ready : ReadySet) (key : ActionKey) : Prop :=
  key ∈ ready ∧ ∀ other ∈ ready, other.duty = key.duty → other = key ∨ key.cmp other = .lt

namespace RoundRobin

/-- The owners that have an action ready. -/
def owners (offer : Moment × ReadySet) : List DutyId := offer.2.map ActionKey.duty

/-- One choice: the first action of the next owner. -/
theorem chooses (self : RoundRobin) (now : Moment) {ready : ReadySet} (hne : ready ≠ [])
    (hsorted : ready.Pairwise fun a b => a.cmp b = .lt) :
    ∃ key, Scheduler.choose self now ready = (⟨some key.duty⟩, .ok key) ∧
      rotate self.cursor (ready.map ActionKey.duty) = some key.duty ∧ FirstOfDuty ready key := by
  have hduties : ready.map ActionKey.duty ≠ [] := by simpa using hne
  obtain ⟨owner, howner⟩ := exists_rotate self.cursor hduties
  obtain ⟨action, haction, hduty⟩ := List.mem_map.mp (rotate_spec howner).1
  have hsome : (ready.find? fun action => action.duty = owner).isSome = true :=
    List.find?_isSome.mpr ⟨action, haction, by simpa using hduty⟩
  obtain ⟨key, hkey⟩ := Option.isSome_iff_exists.mp hsome
  obtain ⟨hkey_duty, before, behind, rfl, hbefore⟩ := List.find?_eq_some_iff_append.mp hkey
  obtain rfl : key.duty = owner := by simpa using hkey_duty
  refine ⟨key, ?_, howner, by simp, fun other hother hother_duty => ?_⟩
  · rw [rotate] at howner
    simp only [Scheduler.choose, howner, hkey]
  · rcases List.mem_append.mp hother with hother | hother
    · have hnot := hbefore other hother
      simp [hother_duty] at hnot
    · rcases List.mem_cons.mp hother with rfl | hother
      · exact .inl rfl
      · exact .inr ((List.pairwise_cons.mp (List.pairwise_append.mp hsorted).2.1).1 other hother)

/-- The choices visit the owners in rotated order. -/
theorem choices_eq (self : RoundRobin) {topology : Topology} {offers : List (Moment × ReadySet)}
    (h : ∀ offer ∈ offers, Offered topology offer.2) :
    ∃ picked : List ActionKey, Scheduler.choices self offers = picked.map .ok ∧
      picked.map ActionKey.duty = visits self.cursor (offers.map owners) ∧
      List.Forall₂ (fun offer key => FirstOfDuty offer.2 key) offers picked := by
  induction offers generalizing self with
  | nil => exact ⟨[], rfl, rfl, .nil⟩
  | cons offer rest ih =>
    obtain ⟨now, ready⟩ := offer
    have hoffered := h (now, ready) List.mem_cons_self
    obtain ⟨key, hchoose, hrotate, hfirst⟩ := self.chooses now hoffered.nonempty hoffered.canonical
    obtain ⟨picked, hchoices, hvisits, hall⟩ := ih ⟨some key.duty⟩
      fun offer hmem => h offer (List.mem_cons_of_mem _ hmem)
    refine ⟨key :: picked, ?_, ?_, .cons hfirst hall⟩
    · rw [Scheduler.choices, hchoose]
      exact congrArg _ hchoices
    · simp only [List.map_cons, visits, owners, hrotate]
      exact congrArg _ hvisits

end RoundRobin

/-- **Bounded bypass**: from any cursor and after any choices, if a duty of the
topology has an action ready in as many consecutive sets as there are duties, then it is
selected within them, no other duty is selected twice before it, and every choice is the
first action of its duty. -/
theorem round_robin_bypass {topology : Topology} {duty : DutyId} (hduty : duty ∈ topology.duties)
    (self : RoundRobin) {before window : List (Moment × ReadySet)}
    (hoffered : ∀ offer ∈ before ++ window, Offered topology offer.2)
    (hlength : window.length = topology.len)
    (hready : ∀ offer ∈ window, ∃ key ∈ offer.2, key.duty = duty) :
    ∃ earlier picked : List ActionKey,
      Scheduler.choices self (before ++ window) = (earlier ++ picked).map .ok ∧
      earlier.length = before.length ∧ picked.length = window.length ∧
      duty ∈ picked.map ActionKey.duty ∧
      ((picked.map ActionKey.duty).takeWhile (· ≠ duty)).Nodup ∧
      List.Forall₂ (fun offer key => FirstOfDuty offer.2 key) (before ++ window)
        (earlier ++ picked) := by
  obtain ⟨earlier, hearlier, -, hfirst⟩ := self.choices_eq fun offer hmem =>
    hoffered offer (List.mem_append_left _ hmem)
  obtain ⟨picked, hpicked, hvisits, hfirst'⟩ := (Scheduler.after self before).choices_eq
    fun offer hmem => hoffered offer (List.mem_append_right _ hmem)
  -- the choices are the visits of the cursor to the owners on offer
  have hin : ∀ xs ∈ window.map RoundRobin.owners, duty ∈ xs := by
    intro xs hxs
    obtain ⟨offer, hoffer, rfl⟩ := List.mem_map.mp hxs
    obtain ⟨key, hkey, rfl⟩ := hready offer hoffer
    exact List.mem_map_of_mem hkey
  have hover : ∀ xs ∈ window.map RoundRobin.owners, xs ⊆ topology.duties := by
    intro xs hxs owner howner
    obtain ⟨offer, hoffer, rfl⟩ := List.mem_map.mp hxs
    obtain ⟨key, hkey, rfl⟩ := List.mem_map.mp howner
    exact (hoffered offer (List.mem_append_right _ hoffer)).known key hkey
  refine ⟨earlier, picked, ?_, hfirst.length_eq.symm, hfirst'.length_eq.symm, ?_, ?_, ?_⟩
  · rw [Scheduler.choices_append, hearlier, hpicked, List.map_append]
  · rw [hvisits]
    exact mem_visits _ hduty hin hover (by rw [List.length_map, hlength]; exact le_rfl)
  · rw [hvisits]
    exact visits_nodup _ hin
  · exact List.rel_append hfirst hfirst'

/-- Three duties, from a cursor at the second one: the third is selected before it. -/
theorem round_robin_bypass_wrapped :
    ∃ picked : List ActionKey,
      Scheduler.choices (⟨some 2⟩ : RoundRobin)
          [(0, [.turn 1, .turn 2, .turn 3]), (0, [.turn 2]), (4, [.turn 1, .turn 2])]
        = picked.map .ok ∧
      picked = [.turn 3, .turn 2, .turn 1] ∧ (2 : DutyId) ∈ picked.map ActionKey.duty := by
  let topology : Topology := ⟨[1, 2, 3], by decide, by decide⟩
  let window : List (Moment × ReadySet) :=
    [(0, [.turn 1, .turn 2, .turn 3]), (0, [.turn 2]), (4, [.turn 1, .turn 2])]
  have hoffered : ∀ offer ∈ ([] : List (Moment × ReadySet)) ++ window, Offered topology offer.2 := by
    simp only [List.nil_append, window, List.mem_cons, List.not_mem_nil, or_false]
    rintro offer (rfl | rfl | rfl) <;> exact ⟨by decide, by decide, by decide⟩
  have hready : ∀ offer ∈ window, ∃ key ∈ offer.2, key.duty = 2 := by
    simp only [window, List.mem_cons, List.not_mem_nil, or_false]
    rintro offer (rfl | rfl | rfl) <;> exact ⟨.turn 2, by decide, rfl⟩
  have hduty : (2 : DutyId) ∈ topology.duties := by decide
  obtain ⟨earlier, picked, hchoices, hearlier, -, hmem, -, -⟩ :=
    round_robin_bypass hduty ⟨some 2⟩ hoffered rfl hready
  obtain rfl := List.length_eq_zero_iff.mp hearlier
  have hpicked : [.turn 3, .turn 2, .turn 1] = picked := by
    have hrun : Scheduler.choices (⟨some 2⟩ : RoundRobin) window
        = [ActionKey.turn 3, .turn 2, .turn 1].map .ok := rfl
    exact List.map_injective_iff.mpr (fun _ _ => Returned.ok.inj) (hrun.symm.trans hchoices)
  exact ⟨picked, hchoices, hpicked.symm, hmem⟩

end Calandria
