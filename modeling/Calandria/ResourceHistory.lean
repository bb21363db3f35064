/-
The tokens of a resource table over its whole history.

A slot's generation never falls, rises each time its resource is removed, and
once used up is never replaced.  Every issued token is bounded by the generation
at which its slot stands:

* `Reference.Reached` — of every issued token: its slot stands at it, held, or
  beyond it;
* `Reference.Passed` — of every removed token: its slot stands beyond it;
* `tokens_never_reissued` — hence no token comes back.
-/
import Calandria.ResourceRefinement

namespace Calandria

namespace Resource

variable {capacity : NonZeroUsize} {K R : Type}

/-- The token that a call returned for a new resource. -/
def issuedBy : Op K R × Reply K R → Option ResourceToken
  | (_, .admission (.ok token)) => some token
  | _ => none

/-- The token whose resource a call handed back. -/
def removedBy : Op K R × Reply K R → Option ResourceToken
  | (.remove token, .resource (.ok _)) => some token
  | _ => none

def issued (tr : List (Op K R × Reply K R)) : List ResourceToken := tr.filterMap issuedBy

def removed (tr : List (Op K R × Reply K R)) : List ResourceToken := tr.filterMap removedBy

/-- Of two tokens for one slot, the first has the lower generation. -/
def Precedes (t t' : ResourceToken) : Prop := t.slot = t'.slot → t.generation < t'.generation

theorem mem_filterMap_snoc {f : Op K R × Reply K R → Option ResourceToken}
    {tr : List (Op K R × Reply K R)} {l : Op K R × Reply K R} {t : ResourceToken} :
    t ∈ (tr ++ [l]).filterMap f ↔ t ∈ tr.filterMap f ∨ f l = some t := by
  rw [List.filterMap_append, List.mem_append]
  simp

namespace Reference

variable {ref ref' : Reference capacity K R} {t : ResourceToken}

/-! ### Generations only rise -/

/-- The token is its slot's live one, or its slot stands beyond it. -/
def Reached (ref : Reference capacity K R) (t : ResourceToken) : Prop :=
  ∃ k, t.slot = slotId k ∧
    ∀ g, ref.standing k = some g → t.generation < g ∨ (t.generation = g ∧ ref.Held k)

/-- The token's slot stands beyond it. -/
def Passed (ref : Reference capacity K R) (t : ResourceToken) : Prop :=
  ∃ k, t.slot = slotId k ∧ ∀ g, ref.standing k = some g → t.generation < g

theorem Passed.not_live (h : ref.Passed t) (hplaced : ref.Placed) : ref.live t = none := by
  obtain ⟨k, hk, hbeyond⟩ := h
  rw [Option.eq_none_iff_forall_ne_some]
  intro e hlive
  obtain ⟨k', -, hk', hstanding⟩ := hplaced.stands hlive
  obtain rfl := slotId_injective (hk.symm.trans hk')
  exact lt_irrefl _ (hbeyond _ hstanding)

/-- A token at the last generation passes only into retirement. -/
theorem Passed.retired (h : ref.Passed t) (hlast : t.generation = U64.max) :
    ∃ k, t.slot = slotId k ∧ ref.Retired k := by
  obtain ⟨k, hk, hbeyond⟩ := h
  refine ⟨k, hk, ?_⟩
  rw [Retired, Option.eq_none_iff_forall_ne_some]
  intro g hg
  have hlt := hbeyond g hg
  rw [hlast] at hlt
  exact absurd (Fin.le_last g) (not_le.mpr hlt)

theorem lt_checkedNext {g g' : ResourceGeneration}
    (h : ResourceGeneration.checkedNext g = some g') : g < g' := by
  have hval := U64.checkedAdd_eq_some.mp h
  rw [Fin.lt_def, hval]
  exact Nat.lt_succ_self _

theorem Held.of_update {k : Index capacity} {x : K × R} (h : ref.Held k)
    {s : Index capacity → Option ResourceGeneration} :
    Held { ref with live := Function.update ref.live t (some x), standing := s } k := by
  obtain ⟨g, e, hlive⟩ := h
  by_cases ht : (⟨ref.owner, slotId k, g⟩ : ResourceToken) = t
  · exact ⟨g, x, by rw [← ht]; exact Function.update_self ..⟩
  · exact ⟨g, e, by rw [← hlive]; exact Function.update_of_ne ht ..⟩

variable [BEq K] {l : Op K R × Reply K R}

/-- What a call can do to the map, and which token it issues or removes. -/
theorem Step.cases (h : ref.Step l ref') :
    (issuedBy l = none ∧ removedBy l = none ∧ ref' = ref) ∨
    (∃ a r k g, issuedBy l = some ⟨ref.owner, slotId k, g⟩ ∧ removedBy l = none ∧
      ¬ ref.Held k ∧ ref.standing k = some g ∧
      ref' = { ref with
        live := Function.update ref.live ⟨ref.owner, slotId k, g⟩ (some (a, r)) }) ∨
    (∃ t e k, issuedBy l = none ∧ removedBy l = some t ∧ ref.live t = some e ∧
      t.slot = slotId k ∧
      ref' = { ref with
        live := Function.update ref.live t none
        standing := Function.update ref.standing k
          (ResourceGeneration.checkedNext t.generation) }) ∨
    (∃ t e e', issuedBy l = none ∧ removedBy l = none ∧ ref.live t = some e ∧
      ref' = { ref with live := Function.update ref.live t (some e') }) := by
  cases h with
  | admitted hfresh hk hg => exact .inr (.inl ⟨_, _, _, _, rfl, rfl, hk.vacant, hg, rfl⟩)
  | removed hlive hk => exact .inr (.inr (.inl ⟨_, _, _, rfl, rfl, hlive, hk, rfl⟩))
  | wrote hlive => exact .inr (.inr (.inr ⟨_, _, _, rfl, rfl, hlive, rfl⟩))
  | _ => exact .inl ⟨rfl, rfl, rfl⟩

theorem Passed.next (h : ref.Passed t) (hplaced : ref.Placed) (hstep : ref.Step l ref') :
    ref'.Passed t := by
  rcases hstep.cases with ⟨-, -, rfl⟩ | ⟨a, r, k, g, -, -, -, -, rfl⟩ |
    ⟨t', e, k, -, -, hlive, hk, rfl⟩ | ⟨t', e, e', -, -, -, rfl⟩
  · exact h
  · exact h
  · obtain ⟨j, hj, hbeyond⟩ := h
    refine ⟨j, hj, fun g (hg : Function.update ref.standing k _ j = some g) => ?_⟩
    by_cases hjk : j = k
    -- the slot of the removed token: it stood there, so the token lies below the next one
    · subst hjk
      obtain ⟨i, -, hi, hstanding⟩ := hplaced.stands hlive
      obtain rfl := slotId_injective (hk.symm.trans hi)
      rw [Function.update_self] at hg
      exact (hbeyond _ hstanding).trans (lt_checkedNext hg)
    · rw [Function.update_of_ne hjk] at hg
      exact hbeyond g hg
  · exact h

theorem Reached.next (h : ref.Reached t) (hplaced : ref.Placed) (hstep : ref.Step l ref') :
    ref'.Reached t := by
  obtain ⟨j, hj, hreached⟩ := h
  refine ⟨j, hj, ?_⟩
  rcases hstep.cases with ⟨-, -, rfl⟩ | ⟨a, r, k, g, -, -, -, -, rfl⟩ |
    ⟨t', e, k, -, -, hlive, hk, rfl⟩ | ⟨t', e, e', -, -, -, rfl⟩
  · exact hreached
  · exact fun g hg => (hreached g hg).imp_right fun ⟨heq, hheld⟩ => ⟨heq, hheld.of_update⟩
  · intro g (hg : Function.update ref.standing k _ j = some g)
    by_cases hjk : j = k
    · subst hjk
      obtain ⟨i, -, hi, hstanding⟩ := hplaced.stands hlive
      obtain rfl := slotId_injective (hk.symm.trans hi)
      rw [Function.update_self] at hg
      refine .inl (lt_of_le_of_lt ?_ (lt_checkedNext hg))
      rcases hreached _ hstanding with hlt | ⟨heq, -⟩
      · exact le_of_lt hlt
      · exact le_of_eq heq
    · rw [Function.update_of_ne hjk] at hg
      refine (hreached g hg).imp_right fun ⟨heq, g', e', hlive'⟩ => ⟨heq, g', e', ?_⟩
      -- another slot's token is not the removed one
      have hne : (⟨ref.owner, slotId j, g'⟩ : ResourceToken) ≠ t' := by
        rintro rfl
        exact hjk (slotId_injective hk)
      rw [← hlive']
      exact Function.update_of_ne hne ..
  · exact fun g hg => (hreached g hg).imp_right fun ⟨heq, hheld⟩ => ⟨heq, hheld.of_update⟩

theorem Retired.next {k : Index capacity} (h : ref.Retired k) (hplaced : ref.Placed)
    (hstep : ref.Step l ref') : ref'.Retired k := by
  rcases hstep.cases with ⟨-, -, rfl⟩ | ⟨a, r, k', g, -, -, -, -, rfl⟩ |
    ⟨t', e, k', -, -, hlive, hk', rfl⟩ | ⟨t', e, e', -, -, -, rfl⟩
  · exact h
  · exact h
  · obtain ⟨i, -, hi, hstanding⟩ := hplaced.stands hlive
    obtain rfl := slotId_injective (hk'.symm.trans hi)
    have hne : k ≠ k' := by
      rintro rfl
      cases hstanding.symm.trans h
    show Function.update ref.standing k' _ k = none
    rw [Function.update_of_ne hne]
    exact h
  · exact h

/-! ### Whole histories -/

/-- What the tokens of a history have to do with the map it ends in. -/
structure History (tr : List (Op K R × Reply K R)) (ref : Reference capacity K R) : Prop where
  increasing : (issued tr).Pairwise Precedes
  reached : ∀ t ∈ issued tr, ref.Reached t
  passed : ∀ t ∈ removed tr, ref.Passed t

theorem History.next {tr : List (Op K R × Reply K R)} (h : History tr ref) (hplaced : ref.Placed)
    (hplaced' : ref'.Placed) (hstep : ref.Step l ref') : History (tr ++ [l]) ref' where
  increasing := by
    rw [issued, List.filterMap_append, List.pairwise_append]
    refine ⟨h.increasing, ?_, ?_⟩
    · cases hl : issuedBy l <;> simp [hl]
    · intro t ht t' ht' hslot
      obtain ⟨_, hmem, hl⟩ := List.mem_filterMap.mp ht'
      obtain rfl := List.mem_singleton.mp hmem
      rcases hstep.cases with ⟨hnone, -, -⟩ | ⟨a, r, k, g, hsome, -, hvacant, hstanding, -⟩ |
        ⟨_, _, _, hnone, -⟩ | ⟨_, _, _, hnone, -⟩
      · cases hnone.symm.trans hl
      -- the new token's slot is vacant, so it stands beyond every earlier token
      · obtain rfl := Option.some_inj.mp (hsome.symm.trans hl)
        obtain ⟨j, hj, hreached⟩ := h.reached t ht
        obtain rfl := slotId_injective (hj.symm.trans hslot)
        rcases hreached g hstanding with hlt | ⟨-, hheld⟩
        · exact hlt
        · exact absurd hheld hvacant
      · cases hnone.symm.trans hl
      · cases hnone.symm.trans hl
  reached t ht := by
    rcases mem_filterMap_snoc.mp ht with hold | hnew
    · exact (h.reached t hold).next hplaced hstep
    · rcases hstep.cases with ⟨hnone, -, -⟩ | ⟨a, r, k, g, hsome, -, -, hstanding, rfl⟩ |
        ⟨_, _, _, hnone, -⟩ | ⟨_, _, _, hnone, -⟩
      · cases hnone.symm.trans hnew
      · obtain rfl := Option.some_inj.mp (hsome.symm.trans hnew)
        refine ⟨k, rfl, fun g' hg' => .inr ⟨?_, g, (a, r), Function.update_self ..⟩⟩
        exact Option.some_inj.mp (hstanding.symm.trans hg')
      · cases hnone.symm.trans hnew
      · cases hnone.symm.trans hnew
  passed t ht := by
    rcases mem_filterMap_snoc.mp ht with hold | hnew
    · exact (h.passed t hold).next hplaced hstep
    · rcases hstep.cases with ⟨-, hnone, -⟩ | ⟨_, _, _, _, -, hnone, -⟩ |
        ⟨t', e, k, -, hsome, -, hk, rfl⟩ | ⟨_, _, _, -, hnone, -⟩
      · cases hnone.symm.trans hnew
      · cases hnone.symm.trans hnew
      · obtain rfl := Option.some_inj.mp (hsome.symm.trans hnew)
        refine ⟨k, hk, fun g (hg : Function.update ref.standing k _ k = some g) => ?_⟩
        rw [Function.update_self] at hg
        exact lt_checkedNext hg
      · cases hnone.symm.trans hnew

end Reference

/-- The token is refused by every call that resolves one, which changes nothing. -/
def ResourceTable.Stale (table : ResourceTable capacity K R) (t : ResourceToken) : Prop :=
  ∃ f, table.get t = .error f ∧ (∀ w, table.getMut t w = (table, .error f)) ∧
    table.remove t = .ok (table, .error f)

theorem ResourceTable.stale_of_not_live {table : ResourceTable capacity K R} {t : ResourceToken}
    (h : table.reference.live t = none) : table.Stale t := by
  rcases table.validate_cases t with ⟨k, g, a, r, rfl, hslot, -, -⟩ | ⟨f, -, hvalid, hget⟩
  · cases h.symm.trans (live_token hslot)
  · refine ⟨f, hget, fun w => ?_, ?_⟩
    · rw [getMut, hvalid]
    · rw [remove, hvalid]

section

variable {owner : ResourceOwnerId} {generation : ResourceGeneration} [BEq K] [PartialEquivBEq K]
  {tr tr' : List (Op K R × Reply K R)} {table table' : ResourceTable capacity K R}

theorem run_history (h : (system capacity owner generation K R).Run tr table) :
    table.WF ∧ Reference.History tr table.reference := by
  refine h.invariant (I := fun tr table => ResourceTable.WF table ∧
    Reference.History tr table.reference) ?_ ?_
  · rintro table rfl
    exact ⟨.startingAt capacity owner generation, .nil, nofun, nofun⟩
  · rintro tr table ⟨op, reply⟩ table' _ ⟨hwf, hhistory⟩ hexec
    obtain ⟨_, _, hop⟩ := hwf.refines op
    cases hexec.symm.trans hop.returns
    exact ⟨hop.wf, hhistory.next table.reference_placed table'.reference_placed hop.step⟩

theorem retired_forever (hwf : table.WF) {k : Index capacity}
    (hretired : table.reference.Retired k)
    (h : Steps (system capacity owner generation K R).step table tr' table') :
    table'.reference.Retired k := by
  suffices table'.WF ∧ table'.reference.Retired k from this.2
  refine h.preserves (P := fun table => ResourceTable.WF table ∧ table.reference.Retired k) ?_
    ⟨hwf, hretired⟩
  rintro table ⟨op, reply⟩ table' ⟨hwf, hretired⟩ hexec
  obtain ⟨_, _, hop⟩ := hwf.refines op
  cases hexec.symm.trans hop.returns
  exact ⟨hop.wf, hretired.next table.reference_placed hop.step⟩

/-- **No token comes back.**  Over every history, from every first generation:
all issued tokens differ, those of one slot in rising generation; a removed token
is refused by every later state; and a slot whose last generation was removed is
exhausted in every later state. -/
theorem tokens_never_reissued (h : (system capacity owner generation K R).Run tr table) :
    (issued tr).Nodup ∧ (issued tr).Pairwise Precedes ∧
    (∀ t ∈ removed tr, table.Stale t ∧ (t.generation = U64.max →
      ∃ k, t.slot = slotId k ∧ (table.slots k).isExhausted = true)) ∧
    ∀ {k tr' table'}, (table.slots k).isExhausted = true →
      Steps (system capacity owner generation K R).step table tr' table' →
      (table'.slots k).isExhausted = true := by
  obtain ⟨hwf, hhistory⟩ := run_history h
  refine ⟨?_, hhistory.increasing, fun t ht => ⟨?_, fun hlast => ?_⟩, fun hexhausted hsteps => ?_⟩
  · refine hhistory.increasing.imp fun {t t'} hlt heq => ?_
    subst heq
    exact lt_irrefl _ (hlt rfl)
  · exact ResourceTable.stale_of_not_live ((hhistory.passed t ht).not_live table.reference_placed)
  · obtain ⟨k, hk, hretired⟩ := (hhistory.passed t ht).retired hlast
    exact ⟨k, hk, ResourceTable.reference_retired.mp hretired⟩
  · rw [← ResourceTable.reference_retired] at hexhausted ⊢
    exact retired_forever hwf hexhausted hsteps

/-- A slot is reused; its first token stays refused. -/
theorem tokens_never_reissued_reuse : ∃ table : ResourceTable ⟨1, by decide⟩ ℕ ℕ,
    table.get ⟨3, 0, 1⟩ = .ok (8, 2) ∧ table.Stale ⟨3, 0, 0⟩ := by
  let t₀ : ResourceTable ⟨1, by decide⟩ ℕ ℕ := .startingAt ⟨1, by decide⟩ 3 0
  let t₁ := { t₀.setSlot ⟨0, by decide⟩ (.occupied 0 7 1) with active := 1 }
  let t₂ := { (t₁.setSlot ⟨0, by decide⟩ .exhausted).setSlot ⟨0, by decide⟩ (.vacant 1) with
    active := 0 }
  let t₃ := { t₂.setSlot ⟨0, by decide⟩ (.occupied 1 8 2) with active := 1 }
  have h1 : t₀.exec (.admitResource 7 1) = .ok (t₁, .admission (.ok ⟨3, 0, 0⟩)) := rfl
  have h2 : t₁.exec (.remove ⟨3, 0, 0⟩) = .ok (t₂, .resource (.ok (7, 1))) := rfl
  have h3 : t₂.exec (.admitResource 8 2) = .ok (t₃, .admission (.ok ⟨3, 0, 1⟩)) := rfl
  have hrun : (system ⟨1, by decide⟩ 3 0 ℕ ℕ).Run _ t₃ :=
    (((TransitionSystem.Run.start rfl).next (l := (_, _)) h1).next (l := (_, _)) h2).next
      (l := (_, _)) h3
  exact ⟨t₃, rfl, ((tokens_never_reissued hrun).2.2.1 ⟨3, 0, 0⟩ (by simp [removed, removedBy])).1⟩

end

end Resource

end Calandria
