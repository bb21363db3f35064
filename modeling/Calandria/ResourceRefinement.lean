/-
The resource table implements its finite map.

* `ResourceTable.reference` — the map that a table implements: what a caller can
  resolve in it;
* `ResourceTable.WF` — the counters are exact, and live identities differ;
* `ResourceTable.WF.refines` — every call is one step of the map;
* `table_refines` — every history of the table is one of the map.
-/
import Calandria.ResourceReference

namespace Calandria

namespace Resource

namespace ResourceTable

variable {capacity : NonZeroUsize} {K R : Type} {table : ResourceTable capacity K R}

/-! ### The map that a table implements -/

/-- What a caller can resolve in the table. -/
def reference (table : ResourceTable capacity K R) : Reference capacity K R where
  owner := table.owner
  live token := (table.get token).toOption
  standing k := (table.slots k).standing

theorem validateOwnerAndSlot_eq_ok {t : ResourceToken} {k : Index capacity} :
    table.validateOwnerAndSlot t = .ok k ↔ t.owner = table.owner ∧ t.slot = slotId k := by
  rw [validateOwnerAndSlot]
  split_ifs with howner hslot
  · exact iff_of_false nofun fun h => howner h.1
  · rw [not_not] at howner
    constructor
    · rintro ⟨⟩
      exact ⟨howner, rfl⟩
    · rintro ⟨-, h⟩
      exact congrArg Except.ok (slotId_injective h)
  · refine iff_of_false nofun fun h => hslot ?_
    rw [h.2]
    exact k.isLt

theorem token_eq_iff {t : ResourceToken} {k : Index capacity} {g : ResourceGeneration} :
    t = table.token k g ↔ (t.owner = table.owner ∧ t.slot = slotId k) ∧ t.generation = g := by
  obtain ⟨owner, slot, generation⟩ := t
  simp [token, and_assoc]

theorem get_eq_ok {t : ResourceToken} {e : K × R} :
    table.get t = .ok e ↔
      ∃ k g, t = table.token k g ∧ table.slots k = .occupied g e.1 e.2 := by
  simp only [token_eq_iff, ← validateOwnerAndSlot_eq_ok]
  rw [get]
  cases hindex : table.validateOwnerAndSlot t with
  | error f => exact iff_of_false nofun (by rintro ⟨k, g, ⟨⟨⟩, -⟩, -⟩)
  | ok k =>
    simp only [bind, Except.bind, Except.ok.injEq]
    cases hslot : table.slots k with
    | vacant g => exact iff_of_false nofun (by rintro ⟨k', g, ⟨rfl, -⟩, h⟩; simp [hslot] at h)
    | exhausted => exact iff_of_false nofun (by rintro ⟨k', g, ⟨rfl, -⟩, h⟩; simp [hslot] at h)
    | occupied g a r =>
      dsimp only
      split_ifs with hg
      · constructor
        · rintro ⟨⟩
          exact ⟨k, g, ⟨rfl, hg.symm⟩, hslot⟩
        · rintro ⟨k', g', ⟨rfl, -⟩, h⟩
          obtain ⟨-, rfl, rfl⟩ := Slot.occupied.inj (hslot.symm.trans h)
          rfl
      · refine iff_of_false nofun ?_
        rintro ⟨k', g', ⟨rfl, rfl⟩, h⟩
        exact hg (Slot.occupied.inj (hslot.symm.trans h)).1

theorem reference_live {t : ResourceToken} {e : K × R} :
    table.reference.live t = some e ↔
      ∃ k g, t = table.token k g ∧ table.slots k = .occupied g e.1 e.2 := by
  rw [← get_eq_ok]
  change (table.get t).toOption = some e ↔ _
  cases table.get t with
  | error f => exact iff_of_false nofun nofun
  | ok e' => simp [Except.toOption]

theorem live_token {k : Index capacity} {g : ResourceGeneration} {a : K} {r : R}
    (h : table.slots k = .occupied g a r) : table.reference.live (table.token k g) = some (a, r) :=
  reference_live.mpr ⟨k, g, rfl, h⟩

theorem reference_held {k : Index capacity} :
    table.reference.Held k ↔ (table.slots k).isOccupied = true := by
  constructor
  · rintro ⟨g, e, h⟩
    obtain ⟨k', g', ht, hslot⟩ := reference_live.mp h
    obtain rfl := slotId_injective (token_eq_iff.mp ht).1.2
    rw [hslot]
    rfl
  · intro h
    cases hslot : table.slots k with
    | vacant g => simp [hslot, Slot.isOccupied] at h
    | exhausted => simp [hslot, Slot.isOccupied] at h
    | occupied g a r => exact ⟨g, (a, r), live_token hslot⟩

theorem reference_retired {k : Index capacity} :
    table.reference.Retired k ↔ (table.slots k).isExhausted = true := by
  change (table.slots k).standing = none ↔ _
  cases table.slots k <;> simp [Slot.standing, Slot.isExhausted]

/-- Other tokens resolve as before when a slot changes. -/
theorem live_setSlot {k : Index capacity} {slot : Slot K R} {t : ResourceToken}
    (hnew : ∀ {g a r}, slot = .occupied g a r → t ≠ table.token k g)
    (hold : ∀ {g a r}, table.slots k = .occupied g a r → t ≠ table.token k g) :
    (table.setSlot k slot).reference.live t = table.reference.live t := by
  refine Option.ext fun e => ?_
  rw [reference_live, reference_live]
  constructor
  · rintro ⟨k', g, ht, hslot⟩
    by_cases hk : k' = k
    · subst hk
      rw [setSlot_slots_self] at hslot
      exact absurd ht (hnew hslot)
    · rw [setSlot_slots_of_ne table slot hk] at hslot
      exact ⟨k', g, ht, hslot⟩
  · rintro ⟨k', g, ht, hslot⟩
    have hk : k' ≠ k := by
      rintro rfl
      exact hold hslot ht
    refine ⟨k', g, ht, ?_⟩
    rw [setSlot_slots_of_ne table slot hk, hslot]

theorem standing_setSlot (table : ResourceTable capacity K R) (k : Index capacity)
    (slot : Slot K R) :
    (table.setSlot k slot).reference.standing =
      Function.update table.reference.standing k slot.standing := by
  funext j
  by_cases hj : j = k
  · subst hj
    simp [reference, setSlot]
  · simp [reference, setSlot, hj]

/-- Taking a slot that stands at `g` makes its token live. -/
theorem reference_occupy {k : Index capacity} {g : ResourceGeneration} {a : K} {r : R}
    (h : (table.slots k).standing = some g) :
    (table.setSlot k (.occupied g a r)).reference =
      { table.reference with
        live := Function.update table.reference.live (table.token k g) (some (a, r)) } := by
  refine Reference.ext rfl (funext fun t => ?_) ?_
  · show _ = Function.update table.reference.live (table.token k g) _ t
    by_cases ht : t = table.token k g
    · subst ht
      rw [Function.update_self]
      exact live_token (setSlot_slots_self ..)
    · rw [Function.update_of_ne ht]
      refine live_setSlot ?_ ?_
      · rintro g' a' r' ⟨⟩
        exact ht
      · intro g' a' r' hslot
        rw [hslot, Slot.standing, Option.some_inj] at h
        rwa [h]
  · rw [standing_setSlot]
    exact Function.update_eq_self_iff.mpr h.symm

/-- Leaving a slot ends its token. -/
theorem reference_vacate {k : Index capacity} {g : ResourceGeneration} {a : K} {r : R}
    {slot : Slot K R} (h : table.slots k = .occupied g a r) (hslot : slot.isOccupied = false) :
    (table.setSlot k slot).reference =
      { table.reference with
        live := Function.update table.reference.live (table.token k g) none
        standing := Function.update table.reference.standing k slot.standing } := by
  have hnew : ∀ {g a r}, slot ≠ .occupied g a r := by
    rintro g a r rfl
    cases hslot
  refine Reference.ext rfl (funext fun t => ?_) (standing_setSlot ..)
  show _ = Function.update table.reference.live (table.token k g) none t
  by_cases ht : t = table.token k g
  · subst ht
    rw [Function.update_self, Option.eq_none_iff_forall_ne_some]
    intro e he
    obtain ⟨k', g', htoken, hk'⟩ := reference_live.mp he
    obtain rfl := slotId_injective (congrArg ResourceToken.slot htoken)
    rw [setSlot_slots_self] at hk'
    exact hnew hk'
  · rw [Function.update_of_ne ht]
    refine live_setSlot (fun hslot => absurd hslot hnew) ?_
    intro g' a' r' hslot
    obtain rfl := (Slot.occupied.inj (h.symm.trans hslot)).1
    exact ht

theorem reference_startingAt (capacity : NonZeroUsize) (owner : ResourceOwnerId)
    (generation : ResourceGeneration) :
    (ResourceTable.startingAt capacity owner generation : ResourceTable capacity K R).reference =
      .empty capacity owner generation := by
  refine Reference.ext rfl (funext fun t => ?_) rfl
  rw [Reference.empty, Option.eq_none_iff_forall_ne_some]
  intro e he
  obtain ⟨k, g, -, hslot⟩ := reference_live.mp he
  cases hslot

/-! ### What the operations answer -/

theorem validate_cases (table : ResourceTable capacity K R) (t : ResourceToken) :
    (∃ k g a r, t = table.token k g ∧ table.slots k = .occupied g a r ∧
      table.validateToken t = .ok k ∧ table.get t = .ok (a, r)) ∨
    (∃ f, table.reference.Fails t f ∧ table.validateToken t = .error f ∧
      table.get t = .error f) := by
  -- the checks of the source, each against the constructor of `Fails` it answers
  by_cases howner : t.owner = table.owner
  · by_cases hbound : t.slot.val < capacity.get.val
    · have hvalid : table.validateOwnerAndSlot t = .ok ⟨t.slot.val, hbound⟩ :=
        validateOwnerAndSlot_eq_ok.mpr ⟨howner, rfl⟩
      have hheld : table.reference.Held ⟨t.slot.val, hbound⟩ ↔
          (table.slots ⟨t.slot.val, hbound⟩).isOccupied = true := reference_held
      have hretired : table.reference.Retired ⟨t.slot.val, hbound⟩ ↔
          (table.slots ⟨t.slot.val, hbound⟩).isExhausted = true := reference_retired
      rw [validateToken, get, hvalid]
      cases hslot : table.slots ⟨t.slot.val, hbound⟩ with
      | vacant g =>
        refine .inr ⟨.vacant t.slot g, ?_, by simp [bind, Except.bind, hslot, Slot.tokenFailure],
          by simp [bind, Except.bind, hslot, Slot.tokenFailure]⟩
        refine .vacant howner rfl (congrArg Slot.standing hslot) ?_
        rw [hheld, hslot]
        exact nofun
      | exhausted =>
        refine .inr ⟨.exhausted t.slot, ?_, by simp [bind, Except.bind, hslot, Slot.tokenFailure],
          by simp [bind, Except.bind, hslot, Slot.tokenFailure]⟩
        refine .exhausted (k := ⟨t.slot.val, hbound⟩) howner rfl ?_
        rw [hretired, hslot]
        rfl
      | occupied g a r =>
        -- an occupied slot answers only the token of its own generation
        by_cases hg : g = t.generation
        · refine .inl ⟨_, g, a, r, token_eq_iff.mpr ⟨⟨howner, rfl⟩, hg.symm⟩, hslot, ?_, ?_⟩
          · simp [bind, Except.bind, hslot, hg]
          · simp [bind, Except.bind, hslot, hg]
        · refine .inr ⟨.generationMismatch t.slot g t.generation, ?_,
            by simp [bind, Except.bind, hslot, hg, Slot.tokenFailure],
            by simp [bind, Except.bind, hslot, hg, Slot.tokenFailure]⟩
          refine .generation howner rfl (congrArg Slot.standing hslot) ?_ hg
          rw [hheld, hslot]
          rfl
    · have hvalid : table.validateOwnerAndSlot t = .error (.slotOutOfBounds t.slot capacity) := by
        rw [validateOwnerAndSlot, if_neg (not_not.mpr howner), dif_neg hbound]
      rw [validateToken, get, hvalid]
      exact .inr ⟨_, .bounds howner (Fin.le_def.mpr (Nat.le_of_not_lt hbound)), rfl, rfl⟩
  · have hvalid : table.validateOwnerAndSlot t = .error (.ownerMismatch table.owner t.owner) := by
      rw [validateOwnerAndSlot, if_pos howner]
    rw [validateToken, get, hvalid]
    exact .inr ⟨_, .owner howner, rfl, rfl⟩

theorem nextVacant_eq_some {k : Index capacity} {g : ResourceGeneration}
    (h : table.nextVacant = some (k, g)) :
    table.slots k = .vacant g ∧ table.reference.Lowest k := by
  obtain ⟨j, hj, hbelow⟩ := findSome?_finRange h
  have hslot : table.slots k = .vacant g := by
    cases hslot : table.slots j with
    | vacant g' =>
      simp only [hslot, Option.some_inj, Prod.mk.injEq] at hj
      obtain ⟨rfl, rfl⟩ := hj
      exact hslot
    | exhausted => simp [hslot] at hj
    | occupied g b r => simp [hslot] at hj
  have hjk : j = k := by
    cases hs : table.slots j <;> simp [hs] at hj
    exact hj.1
  subst hjk
  refine ⟨hslot, ?_, fun i hi => ?_⟩
  · rw [reference_held, hslot]
    exact nofun
  · rw [reference_held, reference_retired]
    have hi := hbelow i hi
    cases hs : table.slots i with
    | vacant g' => simp [hs] at hi
    | exhausted => exact .inr rfl
    | occupied g b r => exact .inl rfl

theorem nextVacant_eq_none (h : table.nextVacant = none) (k : Index capacity) :
    (table.slots k).isVacant = false := by
  have hk := findSome?_finRange_eq_none.mp h k
  cases hs : table.slots k with
  | vacant g => simp [hs] at hk
  | exhausted => rfl
  | occupied g b r => rfl

theorem mem_iter {t : ResourceToken} {e : K × R} :
    (t, e) ∈ table.iter ↔ table.reference.live t = some e := by
  rw [reference_live, iter, List.mem_filterMap]
  constructor
  · rintro ⟨k, -, hk⟩
    cases hs : table.slots k with
    | vacant g => simp [hs] at hk
    | exhausted => simp [hs] at hk
    | occupied g b r =>
      simp only [hs, Option.some_inj, Prod.mk.injEq] at hk
      obtain ⟨rfl, rfl⟩ := hk
      exact ⟨k, g, rfl, hs⟩
  · rintro ⟨k, g, rfl, hs⟩
    exact ⟨k, List.mem_finRange k, by rw [hs]⟩

theorem slot_of_mem {table : ResourceTable capacity K R} {j : Fin capacity.get.val}
    {t : ResourceToken}
    (h : t ∈ Option.map Prod.fst (match table.slots j with
      | .occupied g a r => some (table.token j g, a, r)
      | .vacant _ | .exhausted => none)) : t.slot = slotId j := by
  cases hs : table.slots j with
  | vacant g => simp [hs] at h
  | exhausted => simp [hs] at h
  | occupied g b r =>
    simp only [hs, Option.map_some, Option.mem_def, Option.some_inj] at h
    rw [← h]
    rfl

theorem iter_nodup (table : ResourceTable capacity K R) : (table.iter.map Prod.fst).Nodup := by
  rw [iter, List.map_filterMap]
  refine (List.nodup_finRange _).filterMap fun k k' t hk hk' => ?_
  exact slotId_injective ((slot_of_mem hk).symm.trans (slot_of_mem hk'))

variable [BEq K]

theorem containsIdentity_iff {a : K} :
    table.containsIdentity a = true ↔
      ∃ t b r, table.reference.live t = some (b, r) ∧ (b == a) = true := by
  rw [containsIdentity, List.any_eq_true]
  constructor
  · rintro ⟨k, -, hk⟩
    cases hslot : table.slots k with
    | vacant g => simp [hslot] at hk
    | exhausted => simp [hslot] at hk
    | occupied g b r =>
      rw [hslot] at hk
      exact ⟨_, b, r, live_token hslot, hk⟩
  · rintro ⟨t, b, r, hlive, heq⟩
    obtain ⟨k, g, -, hslot⟩ := reference_live.mp hlive
    refine ⟨k, List.mem_finRange k, ?_⟩
    rw [hslot]
    exact heq

theorem fresh_of_not_contains {a : K} (h : table.containsIdentity a = false) :
    table.reference.Fresh a := by
  refine ⟨fun {t b r} hlive => ?_⟩
  rw [← Bool.not_eq_true]
  intro heq
  rw [containsIdentity_iff.mpr ⟨t, b, r, hlive, heq⟩] at h
  cases h

theorem tokenFor_eq_some {a : K} {t : ResourceToken} (h : table.tokenFor a = some t) :
    ∃ b r, table.reference.live t = some (b, r) ∧ (b == a) = true := by
  obtain ⟨k, -, hk⟩ := List.exists_of_findSome?_eq_some h
  cases hslot : table.slots k with
  | vacant g => simp [hslot] at hk
  | exhausted => simp [hslot] at hk
  | occupied g b r =>
    simp only [hslot, Option.ite_none_right_eq_some, Option.some_inj] at hk
    obtain ⟨heq, rfl⟩ := hk
    exact ⟨b, r, live_token hslot, heq⟩

theorem tokenFor_eq_none {a : K} (h : table.tokenFor a = none) : table.reference.Fresh a := by
  refine ⟨fun {t b r} hlive => ?_⟩
  obtain ⟨k, g, -, hslot⟩ := reference_live.mp hlive
  have hk := findSome?_finRange_eq_none.mp h k
  simp only [hslot] at hk
  by_contra hne
  rw [if_pos (Bool.not_eq_false _ ▸ hne)] at hk
  cases hk

end ResourceTable

/-! ### What the tables have in common -/

namespace Reference

variable {capacity : NonZeroUsize} {K R : Type} [BEq K] [PartialEquivBEq K]
  {ref : Reference capacity K R}

/-- A token that enters the map keeps the identities apart if its own is not
that of another token. -/
theorem Distinct.update (h : ref.Distinct) {t : ResourceToken} {x : Option (K × R)}
    {s : Index capacity → Option ResourceGeneration}
    (hx : ∀ {a r t' b q}, x = some (a, r) → ref.live t' = some (b, q) → t' ≠ t →
      (b == a) = false) :
    Distinct { ref with live := Function.update ref.live t x, standing := s } := by
  refine ⟨fun {t₁ t₂ a₁ a₂ r₁ r₂} h₁ h₂ heq => ?_⟩
  by_contra hne
  rcases update_eq_some.mp h₁ with ⟨rfl, hx₁⟩ | ⟨hne₁, hlive₁⟩
  · rcases update_eq_some.mp h₂ with ⟨rfl, -⟩ | ⟨hne₂, hlive₂⟩
    · exact hne rfl
    · have hfalse := hx hx₁ hlive₂ hne₂
      rw [BEq.symm heq] at hfalse
      cases hfalse
  · rcases update_eq_some.mp h₂ with ⟨rfl, hx₂⟩ | ⟨-, hlive₂⟩
    · have hfalse := hx hx₂ hlive₁ hne₁
      rw [heq] at hfalse
      cases hfalse
    · exact hne (h.token_eq hlive₁ hlive₂ heq)

end Reference

namespace ResourceTable

variable {capacity : NonZeroUsize} {K R : Type} [BEq K] {table : ResourceTable capacity K R}

/-- The counters are exact and the live identities differ. -/
structure WF (table : ResourceTable capacity K R) : Prop where
  active_eq : table.active.val = tally Slot.isOccupied table.slots
  exhausted_eq : table.exhausted.val = tally Slot.isExhausted table.slots
  distinct : table.reference.Distinct

theorem WF.startingAt (capacity : NonZeroUsize) (owner : ResourceOwnerId)
    (generation : ResourceGeneration) :
    WF (ResourceTable.startingAt capacity owner generation : ResourceTable capacity K R) where
  active_eq := by
    rw [ResourceTable.startingAt, tally_const]
    rfl
  exhausted_eq := by
    rw [ResourceTable.startingAt, tally_const]
    rfl
  distinct := by
    refine ⟨fun h => ?_⟩
    obtain ⟨k, g, -, hslot⟩ := reference_live.mp h
    cases hslot

/-- The slots of each kind share out the capacity. -/
theorem WF.total (h : table.WF) :
    table.active.val + table.exhausted.val + tally Slot.isVacant table.slots
      = capacity.get.val := by
  rw [h.active_eq, h.exhausted_eq]
  refine tally_add _ _ _ (fun slot => ?_) table.slots
  cases slot <;> rfl

theorem WF.full_iff (h : table.WF) :
    table.active = capacity.get ↔ ∀ k, table.reference.Held k := by
  rw [Fin.ext_iff, h.active_eq, tally_eq_iff]
  simp only [reference_held]

/-! ### Each call is one step of the map -/

/-- The outcome of a call: it returns, its reply is the map's, and a typed
failure leaves the table as it was. -/
structure Refines (table : ResourceTable capacity K R) (op : Op K R)
    (table' : ResourceTable capacity K R) (reply : Reply K R) : Prop where
  returns : table.exec op = .ok (table', reply)
  wf : table'.WF
  step : table.reference.Step (op, reply) table'.reference
  unchanged : reply.refused = true → table' = table

theorem WF.active_lt (h : table.WF) {k : Index capacity}
    (hk : (table.slots k).isOccupied = false) : table.active.val < capacity.get.val := by
  have hle := tally_le Slot.isOccupied table.slots
  rw [h.active_eq]
  refine lt_of_le_of_ne hle fun hall => ?_
  have htrue := (tally_eq_iff _ _).mp hall k
  rw [hk] at htrue
  cases htrue

theorem WF.snapshot_refines (h : table.WF) :
    ∃ table' reply, table.Refines .snapshot table' reply := by
  have htotal := h.total
  have hcapacity := capacity.get.isLt
  obtain ⟨unavailable, hadd, hunavailable⟩ := U64.exists_checkedAdd
    (a := table.active) (b := table.exhausted) (by omega)
  obtain ⟨vacant, hsub, hvacant⟩ := U64.exists_checkedSub
    (a := capacity.get) (b := unavailable) (by omega)
  refine ⟨table, .counts ⟨table.owner, capacity, table.active, vacant, table.exhausted⟩,
    ?_, h, .counted ?_ ?_ ?_, Reply.not_refused rfl⟩
  · rw [exec, snapshot, hadd]
    simp only [hsub]
    rfl
  · rw [h.active_eq, tally_eq_ncard]
    simp only [reference_held]
  · rw [h.exhausted_eq, tally_eq_ncard]
    simp only [reference_retired]
  · omega

variable [PartialEquivBEq K]

/-- A fresh identity takes a vacant slot. -/
theorem WF.occupy (h : table.WF) {k : Index capacity} {g : ResourceGeneration} {a : K} {r : R}
    {active : U64} (hslot : table.slots k = .vacant g) (hfresh : table.reference.Fresh a)
    (hactive : active.val = table.active.val + 1) :
    WF { table.setSlot k (.occupied g a r) with active } where
  active_eq := by
    have htally := tally_update Slot.isOccupied table.slots k (.occupied g a r)
    rw [hslot, ← h.active_eq] at htally
    simp only [Slot.isOccupied, if_true, if_false, Bool.false_eq_true] at htally
    exact hactive.trans htally.symm
  exhausted_eq := by
    have htally := tally_update Slot.isExhausted table.slots k (.occupied g a r)
    rw [hslot, ← h.exhausted_eq] at htally
    exact htally.symm
  distinct := by
    have hstanding : (table.slots k).standing = some g := by rw [hslot]; rfl
    show (table.setSlot k (.occupied g a r)).reference.Distinct
    rw [reference_occupy hstanding]
    refine h.distinct.update fun {a' r' t' b q} ha hlive _ => ?_
    cases ha
    exact hfresh.ne hlive

/-- A resource is written in place. -/
theorem WF.write (h : table.WF) {k : Index capacity} {g : ResourceGeneration} {a : K} {r : R}
    (hslot : table.slots k = .occupied g a r) (r' : R) :
    WF (table.setSlot k (.occupied g a r')) where
  active_eq := by
    have htally := tally_update Slot.isOccupied table.slots k (.occupied g a r')
    rw [hslot, ← h.active_eq] at htally
    exact (Nat.add_right_cancel htally).symm
  exhausted_eq := by
    have htally := tally_update Slot.isExhausted table.slots k (.occupied g a r')
    rw [hslot, ← h.exhausted_eq] at htally
    exact htally.symm
  distinct := by
    have hstanding : (table.slots k).standing = some g := by rw [hslot]; rfl
    rw [reference_occupy hstanding]
    refine h.distinct.update fun {a' r' t' b q} ha hlive hne => ?_
    cases ha
    rw [← Bool.not_eq_true]
    exact fun heq => hne (h.distinct.token_eq hlive (live_token hslot) heq)

/-- A live resource leaves its slot. -/
theorem WF.vacate (h : table.WF) {k : Index capacity} {g : ResourceGeneration} {a : K} {r : R}
    (slot : Slot K R) {active exhausted : U64} (hslot : table.slots k = .occupied g a r)
    (hleft : slot.isOccupied = false) (hactive : table.active.val = active.val + 1)
    (hexhausted : exhausted.val = table.exhausted.val + if slot.isExhausted then 1 else 0) :
    WF { table.setSlot k slot with active, exhausted } where
  active_eq := by
    have htally := tally_update Slot.isOccupied table.slots k slot
    rw [hslot, hleft, ← h.active_eq, hactive] at htally
    simp only [Slot.isOccupied, if_true, if_false, Bool.false_eq_true] at htally
    exact (Nat.add_right_cancel htally).symm
  exhausted_eq := by
    have htally := tally_update Slot.isExhausted table.slots k slot
    rw [hslot, ← h.exhausted_eq, ← hexhausted] at htally
    exact htally.symm
  distinct := by
    show (table.setSlot k slot).reference.Distinct
    rw [reference_vacate hslot hleft]
    exact h.distinct.update nofun

theorem WF.admitResource_refines (h : table.WF) (a : K) (r : R) :
    ∃ table' reply, table.Refines (.admitResource a r) table' reply := by
  by_cases hcontains : table.containsIdentity a = true
  · obtain ⟨t, b, q, hlive, heq⟩ := containsIdentity_iff.mp hcontains
    refine ⟨table, _, ?_, h, .inUse hlive heq, fun _ => rfl⟩
    rw [exec, admitResource, if_pos hcontains]
    rfl
  · have hfresh := fresh_of_not_contains (Bool.not_eq_true _ ▸ hcontains)
    by_cases hfull : table.active = capacity.get
    · refine ⟨table, _, ?_, h, .full hfresh (h.full_iff.mp hfull), fun _ => rfl⟩
      rw [exec, admitResource, if_neg hcontains, if_pos hfull]
      rfl
    · cases hnext : table.nextVacant with
      | none =>
        have hspent : ∀ k, ¬ table.reference.Held k → table.reference.Retired k := by
          intro k hk
          have hvacant := nextVacant_eq_none hnext k
          rw [reference_held] at hk
          rw [reference_retired]
          cases hslot : table.slots k with
          | vacant g => simp [hslot, Slot.isVacant] at hvacant
          | exhausted => rfl
          | occupied g b q => simp [hslot, Slot.isOccupied] at hk
        obtain ⟨k, hk⟩ := not_forall.mp fun hall => hfull (h.full_iff.mpr hall)
        refine ⟨table, _, ?_, h, .spent hfresh hk hspent, fun _ => rfl⟩
        rw [exec, admitResource, if_neg hcontains, if_neg hfull, hnext]
        rfl
      | some next =>
        obtain ⟨k, g⟩ := next
        obtain ⟨hslot, hlowest⟩ := nextVacant_eq_some hnext
        have hstanding : (table.slots k).standing = some g := by rw [hslot]; rfl
        have hroom := h.active_lt (k := k) (by rw [hslot]; rfl)
        have hcapacity := capacity.get.isLt
        -- the counter stays below the capacity, itself a machine number
        obtain ⟨active, hadd, hactive⟩ := U64.exists_checkedAdd (a := table.active) (b := 1)
          (show table.active.val + 1 < 2 ^ 64 by omega)
        refine ⟨_, .admission (.ok (table.token k g)), ?_, h.occupy (r := r) hslot hfresh hactive,
          ?_, Reply.not_refused rfl⟩
        · rw [exec, admitResource, if_neg hcontains, if_neg hfull, hnext]
          simp only [setSlot, hadd]
          rfl
        · show table.reference.Step _ (table.setSlot k (.occupied g a r)).reference
          rw [reference_occupy hstanding]
          exact .admitted hfresh hlowest hstanding

theorem WF.remove_refines (h : table.WF) (t : ResourceToken) :
    ∃ table' reply, table.Refines (.remove t) table' reply := by
  rcases table.validate_cases t with ⟨k, g, a, r, rfl, hslot, hvalid, -⟩ | ⟨f, hfails, hvalid, -⟩
  · have hcount := tally_update Slot.isOccupied table.slots k (.exhausted : Slot K R)
    have hretired := tally_le Slot.isExhausted (Function.update table.slots k .exhausted)
    have htally := tally_update Slot.isExhausted table.slots k (.exhausted : Slot K R)
    rw [hslot, ← h.active_eq] at hcount
    rw [hslot, ← h.exhausted_eq] at htally
    simp only [Slot.isOccupied, Slot.isExhausted, if_true, if_false, Bool.false_eq_true]
      at hcount htally
    have hcapacity := capacity.get.isLt
    obtain ⟨active, hsub, hactive⟩ := U64.exists_checkedSub (a := table.active) (b := 1)
      (show 1 ≤ table.active.val by omega)
    rw [Nat.add_comm] at hactive
    have hstep : ∀ {slot : Slot K R}, slot.isOccupied = false →
        slot.standing = ResourceGeneration.checkedNext g →
        table.reference.Step (.remove (table.token k g), .resource (.ok (a, r)))
          (table.setSlot k slot).reference := by
      intro slot hvacated hnext
      rw [reference_vacate hslot hvacated, hnext]
      exact .removed (live_token hslot) rfl
    cases hnext : ResourceGeneration.checkedNext g with
    | some next =>
      refine ⟨_, _, ?_, h.vacate (.vacant next) hslot rfl hactive rfl,
        hstep rfl hnext.symm, Reply.not_refused rfl⟩
      rw [exec, remove, hvalid]
      simp only [hslot, setSlot, hsub, hnext]
      simp only [Function.update_idem]
      rfl
    | none =>
      -- the last generation retires the slot
      obtain ⟨exhausted, hadd, hexhausted⟩ := U64.exists_checkedAdd (a := table.exhausted) (b := 1)
        (show table.exhausted.val + 1 < 2 ^ 64 by omega)
      refine ⟨_, _, ?_, h.vacate .exhausted hslot rfl hactive hexhausted,
        hstep rfl hnext.symm, Reply.not_refused rfl⟩
      rw [exec, remove, hvalid]
      simp only [hslot, setSlot, hsub, hnext, hadd]
      rfl
  · refine ⟨table, _, ?_, h, .notRemoved hfails, fun _ => rfl⟩
    rw [exec, remove, hvalid]
    rfl

theorem WF.getMut_refines (h : table.WF) (t : ResourceToken) (w : R → R) :
    ∃ table' reply, table.Refines (.getMut t w) table' reply := by
  rcases table.validate_cases t with ⟨k, g, a, r, rfl, hslot, hvalid, -⟩ | ⟨f, hfails, hvalid, -⟩
  · have hstanding : (table.slots k).standing = some g := by rw [hslot]; rfl
    refine ⟨_, .resource (.ok (a, r)), ?_, h.write hslot (w r), ?_, Reply.not_refused rfl⟩
    · rw [exec, getMut, hvalid]
      simp only [hslot]
    · rw [reference_occupy hstanding]
      exact .wrote (live_token hslot)
  · refine ⟨table, _, ?_, h, .notWrote hfails, fun _ => rfl⟩
    rw [exec, getMut, hvalid]

/-- **Refinement of one call**: on a well-formed table every call returns and is
one step of the map. -/
theorem WF.refines (h : table.WF) (op : Op K R) : ∃ table' reply, table.Refines op table' reply := by
  cases op with
  | admitResource a r => exact h.admitResource_refines a r
  | remove t => exact h.remove_refines t
  | get t =>
    rcases table.validate_cases t with ⟨k, g, a, r, rfl, hslot, -, hget⟩ | ⟨f, hfails, -, hget⟩
    · refine ⟨table, _, rfl, h, ?_, fun _ => rfl⟩
      rw [hget]
      exact .got (live_token hslot)
    · refine ⟨table, _, rfl, h, ?_, fun _ => rfl⟩
      rw [hget]
      exact .notGot hfails
  | getMut t w => exact h.getMut_refines t w
  | tokenFor a =>
    refine ⟨table, _, rfl, h, ?_, fun _ => rfl⟩
    cases htoken : table.tokenFor a with
    | none => exact .unnamed (tokenFor_eq_none htoken)
    | some t =>
      obtain ⟨b, r, hlive, heq⟩ := tokenFor_eq_some htoken
      exact .named hlive heq
  | containsIdentity a =>
    refine ⟨table, _, rfl, h, ?_, fun _ => rfl⟩
    cases hcontains : table.containsIdentity a with
    | false => exact .lacks (fresh_of_not_contains hcontains)
    | true =>
      obtain ⟨t, b, r, hlive, heq⟩ := containsIdentity_iff.mp hcontains
      exact .contains hlive heq
  | iter => exact ⟨table, _, rfl, h, .listed table.iter_nodup mem_iter, fun _ => rfl⟩
  | snapshot => exact h.snapshot_refines

end ResourceTable

theorem ResourceTable.reference_placed {capacity : NonZeroUsize} {K R : Type}
    (table : ResourceTable capacity K R) : table.reference.Placed := by
  refine ⟨fun {t e} hlive => ?_⟩
  obtain ⟨k, g, rfl, hslot⟩ := reference_live.mp hlive
  exact ⟨k, rfl, rfl, congrArg Slot.standing hslot⟩

/-! ### Every history -/

section

variable {capacity : NonZeroUsize} {owner : ResourceOwnerId} {generation : ResourceGeneration}
  {K R : Type} [BEq K] [PartialEquivBEq K] {tr : List (Op K R × Reply K R)}
  {table : ResourceTable capacity K R}

/-- Every history of the table is one of the map, over well-formed tables. -/
theorem run_refines (h : (system capacity owner generation K R).Run tr table) :
    table.WF ∧ (Reference.system capacity owner generation K R).Run tr table.reference := by
  refine h.invariant (I := fun tr table => ResourceTable.WF table ∧
    (Reference.system capacity owner generation K R).Run tr table.reference) ?_ ?_
  · rintro table rfl
    exact ⟨.startingAt capacity owner generation,
      .start (ResourceTable.reference_startingAt capacity owner generation)⟩
  · rintro tr table ⟨op, reply⟩ table' _ ⟨hwf, hrun⟩ hexec
    obtain ⟨_, _, hop⟩ := hwf.refines op
    cases hexec.symm.trans hop.returns
    exact ⟨hop.wf, hrun.next hop.step⟩

/-- **Refinement of a finite map.**  For every owner, capacity, first generation
and sequence of calls, the replies are those of the map from live tokens to
identities and resources; live identities differ; and the next call, whatever it
is, returns what the map determines and leaves the table as it was if it fails. -/
theorem table_refines (h : (system capacity owner generation K R).Run tr table) :
    (Reference.system capacity owner generation K R).Run tr table.reference ∧
    table.reference.Distinct ∧
    ∀ op, ∃ table' reply, table.exec op = .ok (table', reply) ∧
      (reply.refused = true → table' = table) ∧
      table.reference.Step (op, reply) table'.reference ∧
      ∀ {reply' ref'}, table.reference.Step (op, reply') ref' →
        reply.Same reply' ∧ table'.reference = ref' := by
  obtain ⟨hwf, hrun⟩ := run_refines h
  refine ⟨hrun, hwf.distinct, fun op => ?_⟩
  obtain ⟨table', reply, hop⟩ := hwf.refines op
  exact ⟨table', reply, hop.returns, hop.unchanged, hop.step,
    fun hstep => hop.step.deterministic table.reference_placed hwf.distinct hstep⟩

/-- One slot at the last generation: admitted, removed, and retired. -/
theorem table_refines_retired : ∃ table,
    (Reference.system ⟨1, by decide⟩ 3 U64.max ℕ ℕ).Run
      [(.admitResource 7 1, .admission (.ok ⟨3, 0, U64.max⟩)),
        (.remove ⟨3, 0, U64.max⟩, .resource (.ok (7, 1))),
        (.admitResource 7 2, .admission (.error ⟨7, 2, .tokenSpaceExhausted⟩))]
      (ResourceTable.reference table) := by
  let t₀ : ResourceTable ⟨1, by decide⟩ ℕ ℕ := .startingAt ⟨1, by decide⟩ 3 U64.max
  let t₁ := { t₀.setSlot ⟨0, by decide⟩ (.occupied U64.max 7 1) with active := 1 }
  let t₂ := { (t₁.setSlot ⟨0, by decide⟩ .exhausted) with active := 0, exhausted := 1 }
  have h1 : t₀.exec (.admitResource 7 1) = .ok (t₁, .admission (.ok ⟨3, 0, U64.max⟩)) := rfl
  have h2 : t₁.exec (.remove ⟨3, 0, U64.max⟩) = .ok (t₂, .resource (.ok (7, 1))) := rfl
  have h3 : t₂.exec (.admitResource 7 2) =
      .ok (t₂, .admission (.error ⟨7, 2, .tokenSpaceExhausted⟩)) := rfl
  have hrun : (system ⟨1, by decide⟩ 3 U64.max ℕ ℕ).Run _ t₂ :=
    (((TransitionSystem.Run.start rfl).next (l := (_, _)) h1).next (l := (_, _)) h2).next
      (l := (_, _)) h3
  exact ⟨t₂, (table_refines hrun).1⟩

end

end Resource

end Calandria
