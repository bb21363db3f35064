/-
The finite map that a resource table stands for.

* `Reference` — what the live tokens own, and the generation at which each slot
  stands;
* `Reference.Step` — one call, with the condition of each of its outcomes;
* `Reference.Step.deterministic` — the conditions leave no choice.
-/
import Calandria.Resource

namespace Calandria

namespace Resource

/-! ### The finite map -/

/-- What the live tokens own, and at which generation each slot stands: that of
its live token or of its next one, or none once it is retired. -/
@[ext]
structure Reference (capacity : NonZeroUsize) (K R : Type) where
  owner : ResourceOwnerId
  live : ResourceToken → Option (K × R)
  standing : Index capacity → Option ResourceGeneration

namespace Reference

variable {capacity : NonZeroUsize} {K R : Type}

def empty (capacity : NonZeroUsize) (owner : ResourceOwnerId) (generation : ResourceGeneration) :
    Reference capacity K R :=
  ⟨owner, fun _ => none, fun _ => some generation⟩

/-- Some live token names the slot. -/
def Held (ref : Reference capacity K R) (k : Index capacity) : Prop :=
  ∃ g e, ref.live ⟨ref.owner, slotId k, g⟩ = some e

def Retired (ref : Reference capacity K R) (k : Index capacity) : Prop := ref.standing k = none

/-- Live tokens name distinct identities. -/
structure Distinct [BEq K] (ref : Reference capacity K R) : Prop where
  token_eq : ∀ {t t' a a' r r'}, ref.live t = some (a, r) → ref.live t' = some (a', r') →
    (a == a') = true → t = t'

/-- No live token names the identity. -/
structure Fresh [BEq K] (ref : Reference capacity K R) (identity : K) : Prop where
  ne : ∀ {t a r}, ref.live t = some (a, r) → (a == identity) = false

/-- The lowest vacant slot. -/
structure Lowest (ref : Reference capacity K R) (k : Index capacity) : Prop where
  vacant : ¬ ref.Held k
  below : ∀ j < k, ref.Held j ∨ ref.Retired j

/-- Why a token that is not live is refused: owner first, then slot, then what
stands in the slot. -/
inductive Fails (ref : Reference capacity K R) (t : ResourceToken) : ResourceTokenFailure → Prop
  | owner (h : t.owner ≠ ref.owner) : Fails ref t (.ownerMismatch ref.owner t.owner)
  | bounds (ho : t.owner = ref.owner) (h : capacity.get ≤ t.slot) :
      Fails ref t (.slotOutOfBounds t.slot capacity)
  | exhausted {k} (ho : t.owner = ref.owner) (hk : t.slot = slotId k) (h : ref.Retired k) :
      Fails ref t (.exhausted t.slot)
  | vacant {k g} (ho : t.owner = ref.owner) (hk : t.slot = slotId k)
      (hg : ref.standing k = some g) (h : ¬ ref.Held k) : Fails ref t (.vacant t.slot g)
  | generation {k g} (ho : t.owner = ref.owner) (hk : t.slot = slotId k)
      (hg : ref.standing k = some g) (h : ref.Held k) (hne : g ≠ t.generation) :
      Fails ref t (.generationMismatch t.slot g t.generation)

/-- One call on the map. -/
inductive Step [BEq K] (ref : Reference capacity K R) :
    Op K R × Reply K R → Reference capacity K R → Prop
  | admitted {a r k g} (hfresh : ref.Fresh a) (hk : ref.Lowest k) (hg : ref.standing k = some g) :
      Step ref (.admitResource a r, .admission (.ok ⟨ref.owner, slotId k, g⟩))
        { ref with live := Function.update ref.live ⟨ref.owner, slotId k, g⟩ (some (a, r)) }
  | inUse {a r t b q} (hlive : ref.live t = some (b, q)) (heq : b == a) :
      Step ref (.admitResource a r, .admission (.error ⟨a, r, .identityInUse⟩)) ref
  | full {a r} (hfresh : ref.Fresh a) (h : ∀ k, ref.Held k) :
      Step ref (.admitResource a r, .admission (.error ⟨a, r, .capacityReached capacity⟩)) ref
  | spent {a r k} (hfresh : ref.Fresh a) (hk : ¬ ref.Held k)
      (h : ∀ k, ¬ ref.Held k → ref.Retired k) :
      Step ref (.admitResource a r, .admission (.error ⟨a, r, .tokenSpaceExhausted⟩)) ref
  | removed {t e k} (hlive : ref.live t = some e) (hk : t.slot = slotId k) :
      Step ref (.remove t, .resource (.ok e))
        { ref with
          live := Function.update ref.live t none
          standing := Function.update ref.standing k (ResourceGeneration.checkedNext t.generation) }
  | got {t e} (hlive : ref.live t = some e) : Step ref (.get t, .resource (.ok e)) ref
  | wrote {t a r w} (hlive : ref.live t = some (a, r)) :
      Step ref (.getMut t w, .resource (.ok (a, r)))
        { ref with live := Function.update ref.live t (some (a, w r)) }
  | notRemoved {t f} (h : ref.Fails t f) : Step ref (.remove t, .resource (.error f)) ref
  | notGot {t f} (h : ref.Fails t f) : Step ref (.get t, .resource (.error f)) ref
  | notWrote {t f w} (h : ref.Fails t f) : Step ref (.getMut t w, .resource (.error f)) ref
  | named {t a b r} (hlive : ref.live t = some (b, r)) (heq : b == a) :
      Step ref (.tokenFor a, .token (some t)) ref
  | unnamed {a} (h : ref.Fresh a) : Step ref (.tokenFor a, .token none) ref
  | contains {t a b r} (hlive : ref.live t = some (b, r)) (heq : b == a) :
      Step ref (.containsIdentity a, .contains true) ref
  | lacks {a} (h : ref.Fresh a) : Step ref (.containsIdentity a, .contains false) ref
  | listed {l} (hnodup : (l.map Prod.fst).Nodup)
      (hmem : ∀ {t e}, (t, e) ∈ l ↔ ref.live t = some e) : Step ref (.iter, .entries l) ref
  | counted {active vacant exhausted : U64}
      (hactive : active.val = {k | ref.Held k}.ncard)
      (hexhausted : exhausted.val = {k | ref.Retired k}.ncard)
      (htotal : active.val + vacant.val + exhausted.val = capacity.get.val) :
      Step ref (.snapshot, .counts ⟨ref.owner, capacity, active, vacant, exhausted⟩) ref

def system (capacity : NonZeroUsize) (owner : ResourceOwnerId) (generation : ResourceGeneration)
    (K R : Type) [BEq K] : TransitionSystem (Reference capacity K R) (Op K R × Reply K R) where
  init ref := ref = .empty capacity owner generation
  step := Step

/-! ### The map determines every reply -/

variable {ref : Reference capacity K R}

theorem slot_lt {t : ResourceToken} {k : Index capacity} (h : t.slot = slotId k) :
    ¬ capacity.get ≤ t.slot := by
  rw [h, Fin.le_def, not_le]
  exact k.isLt

/-- A live token carries the owner and stands in its slot. -/
structure Placed (ref : Reference capacity K R) : Prop where
  stands : ∀ {t e}, ref.live t = some e →
    ∃ k, t.owner = ref.owner ∧ t.slot = slotId k ∧ ref.standing k = some t.generation

theorem Placed.not_fails (h : ref.Placed) {t : ResourceToken} {e : K × R}
    {f : ResourceTokenFailure} (hlive : ref.live t = some e) : ¬ ref.Fails t f := by
  obtain ⟨k, howner, hslot, hstanding⟩ := h.stands hlive
  intro hfails
  cases hfails with
  | owner hne => exact hne howner
  | bounds _ hbound =>
    exact slot_lt hslot hbound
  | exhausted _ hslot' hretired =>
    obtain rfl := slotId_injective (hslot.symm.trans hslot')
    cases hstanding.symm.trans hretired
  | vacant _ hslot' _ hvacant =>
    obtain rfl := slotId_injective (hslot.symm.trans hslot')
    exact hvacant ⟨t.generation, e, by rw [← howner, ← hslot]; exact hlive⟩
  | generation _ hslot' hg _ hne =>
    obtain rfl := slotId_injective (hslot.symm.trans hslot')
    exact hne (Option.some_inj.mp (hg.symm.trans hstanding))

theorem Fails.unique {t : ResourceToken} {f f' : ResourceTokenFailure} (h : ref.Fails t f)
    (h' : ref.Fails t f') : f = f' := by
  -- the checks come in the order of the constructors, and each later one
  -- needs what the earlier one refuses
  cases h with
  | owner hne =>
    cases h' with
    | owner _ => rfl
    | bounds ho _ | exhausted ho _ _ | vacant ho _ _ _ | generation ho _ _ _ _ =>
      exact absurd ho hne
  | bounds ho hbound =>
    cases h' with
    | owner hne => exact absurd ho hne
    | bounds _ _ => rfl
    | exhausted _ hk _ | vacant _ hk _ _ | generation _ hk _ _ _ => exact absurd hbound (slot_lt hk)
  | exhausted ho hk hretired =>
    cases h' with
    | owner hne => exact absurd ho hne
    | bounds _ hbound => exact absurd hbound (slot_lt hk)
    | exhausted _ _ _ => rfl
    | vacant _ hk' hg _ | generation _ hk' hg _ _ =>
      obtain rfl := slotId_injective (hk.symm.trans hk')
      cases hg.symm.trans hretired
  | vacant ho hk hg hvacant =>
    cases h' with
    | owner hne => exact absurd ho hne
    | bounds _ hbound => exact absurd hbound (slot_lt hk)
    | exhausted _ hk' hretired =>
      obtain rfl := slotId_injective (hk.symm.trans hk')
      cases hg.symm.trans hretired
    | vacant _ hk' hg' _ =>
      obtain rfl := slotId_injective (hk.symm.trans hk')
      rw [Option.some_inj.mp (hg.symm.trans hg')]
    | generation _ hk' _ hheld _ =>
      obtain rfl := slotId_injective (hk.symm.trans hk')
      exact absurd hheld hvacant
  | generation ho hk hg hheld hne =>
    cases h' with
    | owner hne => exact absurd ho hne
    | bounds _ hbound => exact absurd hbound (slot_lt hk)
    | exhausted _ hk' hretired =>
      obtain rfl := slotId_injective (hk.symm.trans hk')
      cases hg.symm.trans hretired
    | vacant _ hk' _ hvacant =>
      obtain rfl := slotId_injective (hk.symm.trans hk')
      exact absurd hheld hvacant
    | generation _ hk' hg' _ _ =>
      obtain rfl := slotId_injective (hk.symm.trans hk')
      rw [Option.some_inj.mp (hg.symm.trans hg')]

theorem Lowest.unique {k k' : Index capacity} {g g' : ResourceGeneration} (h : ref.Lowest k)
    (hg : ref.standing k = some g) (h' : ref.Lowest k') (hg' : ref.standing k' = some g') :
    k = k' := by
  have hnot : ∀ {i j g}, ref.Lowest i → ref.standing i = some g → ref.Lowest j → ¬ i < j := by
    intro i j g hi hgi hj hlt
    rcases hj.below i hlt with hheld | hretired
    · exact hi.vacant hheld
    · cases hgi.symm.trans hretired
  exact le_antisymm (not_lt.mp (hnot h' hg' h)) (not_lt.mp (hnot h hg h'))

variable [BEq K]

theorem Fresh.absurd {a b : K} {t : ResourceToken} {r : R} {p : Prop} (h : ref.Fresh a)
    (hlive : ref.live t = some (b, r)) (heq : (b == a) = true) : p := by
  rw [h.ne hlive] at heq
  cases heq

variable [PartialEquivBEq K]

/-- What a call answers and leaves is determined, but for the order of an
iteration. -/
theorem Step.deterministic (hplaced : ref.Placed) (hdistinct : ref.Distinct) {op : Op K R}
    {reply reply' : Reply K R} {ref₁ ref₂ : Reference capacity K R}
    (h : ref.Step (op, reply) ref₁) (h' : ref.Step (op, reply') ref₂) :
    reply.Same reply' ∧ ref₁ = ref₂ := by
  -- two different answers to one call rest on guards that contradict each other:
  -- a key in use and a fresh one, a full table and a vacant slot, a live token and its failure
  cases h with
  | admitted hfresh hk hg =>
    cases h' with
    | admitted _ hk' hg' =>
      obtain rfl := hk.unique hg hk' hg'
      obtain rfl := Option.some_inj.mp (hg.symm.trans hg')
      exact ⟨.refl, rfl⟩
    | inUse hlive heq => exact hfresh.absurd hlive heq
    | full _ hfull => exact absurd (hfull _) hk.vacant
    | spent _ _ hspent => cases hg.symm.trans (hspent _ hk.vacant)
  | inUse hlive heq =>
    cases h' with
    | inUse _ _ => exact ⟨.refl, rfl⟩
    | admitted hfresh _ _ | full hfresh _ | spent hfresh _ _ => exact hfresh.absurd hlive heq
  | full hfresh hfull =>
    cases h' with
    | admitted _ hk _ => exact absurd (hfull _) hk.vacant
    | inUse hlive heq => exact hfresh.absurd hlive heq
    | full _ _ => exact ⟨.refl, rfl⟩
    | spent _ hk _ => exact absurd (hfull _) hk
  | spent hfresh hk hspent =>
    cases h' with
    | admitted _ hk' hg => cases hg.symm.trans (hspent _ hk'.vacant)
    | inUse hlive heq => exact hfresh.absurd hlive heq
    | full _ hfull => exact absurd (hfull _) hk
    | spent _ _ _ => exact ⟨.refl, rfl⟩
  | removed hlive hk =>
    cases h' with
    | removed hlive' hk' =>
      obtain rfl := Option.some_inj.mp (hlive.symm.trans hlive')
      obtain rfl := slotId_injective (hk.symm.trans hk')
      exact ⟨.refl, rfl⟩
    | notRemoved hfails => exact absurd hfails (hplaced.not_fails hlive)
  | got hlive =>
    cases h' with
    | got hlive' =>
      obtain rfl := Option.some_inj.mp (hlive.symm.trans hlive')
      exact ⟨.refl, rfl⟩
    | notGot hfails => exact absurd hfails (hplaced.not_fails hlive)
  | wrote hlive =>
    cases h' with
    | wrote hlive' =>
      cases hlive.symm.trans hlive'
      exact ⟨.refl, rfl⟩
    | notWrote hfails => exact absurd hfails (hplaced.not_fails hlive)
  | notRemoved hfails =>
    cases h' with
    | removed hlive _ => exact absurd hfails (hplaced.not_fails hlive)
    | notRemoved hfails' => exact ⟨hfails.unique hfails' ▸ .refl, rfl⟩
  | notGot hfails =>
    cases h' with
    | got hlive => exact absurd hfails (hplaced.not_fails hlive)
    | notGot hfails' => exact ⟨hfails.unique hfails' ▸ .refl, rfl⟩
  | notWrote hfails =>
    cases h' with
    | wrote hlive => exact absurd hfails (hplaced.not_fails hlive)
    | notWrote hfails' => exact ⟨hfails.unique hfails' ▸ .refl, rfl⟩
  | named hlive heq =>
    cases h' with
    | named hlive' heq' =>
      obtain rfl := hdistinct.token_eq hlive hlive' (BEq.trans heq (BEq.symm heq'))
      exact ⟨.refl, rfl⟩
    | unnamed hfresh => exact hfresh.absurd hlive heq
  | unnamed hfresh =>
    cases h' with
    | named hlive heq => exact hfresh.absurd hlive heq
    | unnamed _ => exact ⟨.refl, rfl⟩
  | contains hlive heq =>
    cases h' with
    | contains _ _ => exact ⟨.refl, rfl⟩
    | lacks hfresh => exact hfresh.absurd hlive heq
  | lacks hfresh =>
    cases h' with
    | contains hlive heq => exact hfresh.absurd hlive heq
    | lacks _ => exact ⟨.refl, rfl⟩
  | listed hnodup hmem =>
    cases h' with
    | listed hnodup' hmem' =>
      -- two listings without repetition of the same entries
      refine ⟨.reordered ?_, rfl⟩
      rw [List.perm_ext_iff_of_nodup hnodup.of_map hnodup'.of_map]
      intro e
      exact hmem.trans hmem'.symm
  | counted hactive hexhausted htotal =>
    cases h' with
    | counted hactive' hexhausted' htotal' =>
      obtain rfl := Fin.ext (hactive.trans hactive'.symm)
      obtain rfl := Fin.ext (hexhausted.trans hexhausted'.symm)
      obtain rfl : _ = _ := Fin.ext (Nat.add_right_cancel (htotal.trans htotal'.symm) |>
        Nat.add_left_cancel)
      exact ⟨.refl, rfl⟩

end Reference

end Resource

end Calandria
