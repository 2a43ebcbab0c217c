import IrohWillow.Store.CapsStores

/-!
# Which capability is selected

`CapsStore::get_write_cap` and `get_read_cap` reduce the matching capabilities
with `is_wider_than`. A granted area includes itself, so `is_wider_than` is
inclusion of the granted areas (`isWiderThan_iff`) and its second clause, fewer
delegations, never decides. The reduction still ends at a widest capability;
among equally wide ones it ends at the one inserted last.
-/

namespace IrohWillow

open StoredCap Memory.CapsMaps

/-- The second clause of `is_wider_than` adds nothing to the first. -/
theorem isWiderThan_iff {a b : McCapability} :
    isWiderThan a b = true ↔ a.grantedArea.IncludesArea b.grantedArea := by
  unfold isWiderThan
  simp only [Bool.or_eq_true, Bool.and_eq_true, decide_eq_true_eq]
  constructor
  · rintro (h | ⟨harea, -⟩)
    · exact h
    · rw [harea]
      exact .refl _
  · exact Or.inl

/-- A strictly larger area. -/
def Area.StrictlyIncludes (a b : Area) : Prop := a.IncludesArea b ∧ a ≠ b

instance (a b : Area) : Decidable (a.StrictlyIncludes b) :=
  inferInstanceAs (Decidable (_ ∧ _))

section Selection

variable {α : Type} [StoredCap α]

/-- The granted area of something stored. -/
def areaOf (c : α) : Area := (cap c).grantedArea

/-- The number of its delegations. -/
def delegationsOf (c : α) : Nat := (cap c).delegations.length

/-- The granted area of `a` includes that of `b`. -/
def AtLeastAsWide (a b : α) : Prop := (areaOf a).IncludesArea (areaOf b)

instance AtLeastAsWide.decidableRel : DecidableRel (AtLeastAsWide (α := α)) := fun a b =>
  inferInstanceAs (Decidable ((areaOf a).IncludesArea (areaOf b)))

instance AtLeastAsWide.stdRefl : Std.Refl (AtLeastAsWide (α := α)) :=
  ⟨fun c => Area.IncludesArea.refl (areaOf c)⟩

instance AtLeastAsWide.isTrans : IsTrans α AtLeastAsWide :=
  ⟨fun _ _ _ => Area.IncludesArea.trans⟩

/-- The best candidate is what the reduction chooses by inclusion of the areas. -/
theorem best_eq_choice (map : NamespaceCaps α) (s : CapSelector) :
    map.best s = Reduce.choice AtLeastAsWide (matching s (map.get s.namespaceId)) := by
  have hfun : (fun prev next : α => if isWiderThan (cap next) (cap prev) then next else prev) =
      Reduce.choose AtLeastAsWide := by
    funext prev next
    simp only [Reduce.choose, isWiderThan_iff]
    rfl
  rw [NamespaceCaps.best, hfun]
  rfl

/-- After any insertions, the choice is made among all that match. -/
theorem HoldsAll.best_eq {map : NamespaceCaps α} {stored : List α} (h : HoldsAll map stored)
    (s : CapSelector) : map.best s = Reduce.choice AtLeastAsWide (matching s stored) := by
  rw [best_eq_choice, h.matching_get]

theorem mem_matching {s : CapSelector} {stored : List α} {c : α} :
    c ∈ matching s stored ↔ c ∈ stored ∧ covers s c = true := List.mem_filter

/-! ## A widest one -/

/-- No candidate has a strictly larger area than the chosen one. -/
theorem not_strictlyIncludes_choice {l : List α} {best c : α}
    (h : Reduce.choice AtLeastAsWide l = some best) (hc : c ∈ l) :
    ¬ (areaOf c).StrictlyIncludes (areaOf best) := by
  intro hstrict
  have hback : AtLeastAsWide best c := Reduce.choice_maximal h hc hstrict.1
  exact hstrict.2 (hstrict.1.antisymm hback)

/-- A longer chain comes last: with the candidates in order, and a new run begun
by each one whose area includes that of the first of the current run, the last
run begins with the same area as an earlier one and with more delegations. -/
def LongerLast (l : List α) : Prop :=
  ∃ runs run last, Reduce.Runs AtLeastAsWide l (runs ++ [last]) ∧ run ∈ runs ∧
    areaOf run.1 = areaOf last.1 ∧ delegationsOf run.1 < delegationsOf last.1

/-- No candidate with the area of the chosen one has fewer delegations. -/
def FewestDelegations (l : List α) (selected : Option α) : Prop :=
  ∀ best, selected = some best → ∀ c ∈ l, areaOf c = areaOf best →
    ¬ delegationsOf c < delegationsOf best

variable {l : List α}

theorem atLeastAsWide_of_areaOf_eq {a b : α} (h : areaOf a = areaOf b) : AtLeastAsWide a b := by
  unfold AtLeastAsWide
  rw [h]
  exact .refl _

theorem fewestDelegations_iff (l : List α) :
    FewestDelegations l (Reduce.choice AtLeastAsWide l) ↔ ¬ LongerLast l := by
  constructor
  · rintro hfewest ⟨runs, run, last, hruns, hrun, heq, hlt⟩
    -- the reduction ends at the first of the last run
    have hmem : run.1 ∈ l := by
      rw [hruns.flatten]
      exact List.mem_flatMap.mpr ⟨run, List.mem_append_left _ hrun, List.mem_cons_self⟩
    exact hfewest last.1 hruns.choice_eq run.1 hmem heq hlt
  · intro hlast best hbest c hc heq hlt
    obtain ⟨runs, tail, hruns⟩ := Reduce.choice_of_runs hbest
    -- one with the same area begins a run of its own
    obtain ⟨run, hrun, rfl⟩ := hruns.begins hc (atLeastAsWide_of_areaOf_eq heq)
    rcases List.mem_append.mp hrun with hrun | hrun
    · exact hlast ⟨runs, run, _, hruns, hrun, heq, hlt⟩
    · rw [List.mem_singleton.mp hrun] at hlt
      exact lt_irrefl _ hlt

/-- No candidate has a strictly larger area. -/
def Widest (l : List α) (c : α) : Prop :=
  c ∈ l ∧ ∀ d ∈ l, ¬ (areaOf d).StrictlyIncludes (areaOf c)

theorem widest_of_choice {best : α} (h : Reduce.choice AtLeastAsWide l = some best) :
    Widest l best :=
  ⟨Reduce.choice_mem h, fun _ hd => not_strictlyIncludes_choice h hd⟩

/-- A widest candidate that stands first loses to an equally wide one that stands last. -/
theorem choice_of_widest_first {first last : α} {rest : List α}
    (hfirst : ∀ d ∈ rest, ¬ (areaOf d).StrictlyIncludes (areaOf first))
    (heq : areaOf first = areaOf last) :
    Reduce.choice AtLeastAsWide (first :: rest ++ [last]) = some last := by
  refine Reduce.choice_of_first_last ?_ (atLeastAsWide_of_areaOf_eq heq.symm)
  intro d hd hle
  rcases List.mem_cons.mp hd with rfl | hd
  · exact hle
  · by_cases hsame : areaOf d = areaOf first
    · exact atLeastAsWide_of_areaOf_eq hsame.symm
    · exact absurd ⟨hle, hsame⟩ (hfirst d hd)

end Selection

/-! ## The store after any insertions -/

theorem mem_storedCaps_write {packs : List CapabilityPack} {c : McCapability} :
    c ∈ storedCaps McCapability packs ↔ .write c ∈ packs := by
  simp only [storedCaps, List.mem_filterMap]
  constructor
  · rintro ⟨pack, hpack, hc⟩
    cases pack with
    | read auth => cases hc
    | write cap =>
        obtain rfl := Option.some.inj hc
        exact hpack
  · intro h
    exact ⟨_, h, rfl⟩

theorem getWriteCap_insertAll (packs : List CapabilityPack) (s : CapSelector) :
    (insertAll packs).getWriteCap s =
      Reduce.choice AtLeastAsWide (matching s (storedCaps McCapability packs)) :=
  (holdsAll packs).1.best_eq s

theorem storedCaps_perm {α : Type} [StoredCap α] {packs packs' : List CapabilityPack}
    (h : packs'.Perm packs) : (storedCaps α packs').Perm (storedCaps α packs) := h.filterMap _

/-- The write capabilities that match a selector. -/
def writeMatches (s : CapSelector) (packs : List CapabilityPack) : List McCapability :=
  matching s (storedCaps McCapability packs)

theorem mem_writeMatches {s : CapSelector} {packs : List CapabilityPack} {c : McCapability} :
    c ∈ writeMatches s packs ↔ .write c ∈ packs ∧ covers s c = true := by
  rw [writeMatches, mem_matching, mem_storedCaps_write]

/-- The packs can be inserted with one capability first and another one last. -/
theorem exists_perm_first_last {s : CapSelector} {packs : List CapabilityPack}
    {c d : McCapability} (hne : c ≠ d) (hc : c ∈ writeMatches s packs)
    (hd : d ∈ writeMatches s packs) :
    ∃ packs' rest, packs'.Perm packs ∧ writeMatches s packs' = c :: rest ++ [d] ∧
      ∀ e ∈ rest, e ∈ writeMatches s packs := by
  obtain ⟨hc, hcovers⟩ := mem_writeMatches.mp hc
  obtain ⟨hd, hcovers'⟩ := mem_writeMatches.mp hd
  -- taking one out leaves the other one in
  have hd' : CapabilityPack.write d ∈ packs.erase (.write c) := by
    refine (List.mem_erase_of_ne ?_).mpr hd
    intro h
    exact hne (CapabilityPack.write.inj h).symm
  refine ⟨.write c :: (packs.erase (.write c)).erase (.write d) ++ [.write d],
    writeMatches s ((packs.erase (.write c)).erase (.write d)), ?_, ?_, ?_⟩
  · refine (List.perm_append_singleton _ _).trans ?_
    refine (List.Perm.swap _ _ _).trans ?_
    exact ((List.perm_cons_erase hd').symm.cons _).trans (List.perm_cons_erase hc).symm
  · simp [writeMatches, matching, storedCaps, ofPack, hcovers, hcovers']
  · intro e he
    obtain ⟨he, hcov⟩ := mem_writeMatches.mp he
    exact mem_writeMatches.mpr ⟨List.mem_of_mem_erase (List.mem_of_mem_erase he), hcov⟩

/-- In every order of insertion a shortest chain is returned exactly when no two
matches share a widest area with chains of different lengths. -/
theorem fewest_in_every_order_iff (packs : List CapabilityPack) (s : CapSelector) :
    (∀ packs' : List CapabilityPack, packs'.Perm packs →
        FewestDelegations (writeMatches s packs') ((insertAll packs').getWriteCap s)) ↔
      ∀ c d, Widest (writeMatches s packs) c → Widest (writeMatches s packs) d →
        areaOf c = areaOf d → delegationsOf c = delegationsOf d := by
  constructor
  · intro h
    -- with the longer one inserted last it is chosen, although the other one is there
    have key : ∀ c d, Widest (writeMatches s packs) c → Widest (writeMatches s packs) d →
        areaOf c = areaOf d → ¬ delegationsOf c < delegationsOf d := by
      intro c d hc hd heq hlt
      have hne : c ≠ d := fun hcd => lt_irrefl _ (hcd ▸ hlt)
      obtain ⟨packs', rest, hperm, hmatches, hrest⟩ := exists_perm_first_last hne hc.1 hd.1
      have hchoice : (insertAll packs').getWriteCap s = some d := by
        rw [getWriteCap_insertAll, ← writeMatches, hmatches]
        exact choice_of_widest_first (fun e he => hc.2 e (hrest e he)) heq
      exact h packs' hperm d hchoice c (by simp [hmatches]) heq hlt
    intro c d hc hd heq
    exact le_antisymm (not_lt.mp (key d c hd hc heq.symm)) (not_lt.mp (key c d hc hd heq))
  · intro h packs' hperm best hbest c hc heq
    rw [getWriteCap_insertAll, ← writeMatches] at hbest
    -- the matches do not depend on the order
    have hmem : ∀ e, e ∈ writeMatches s packs' ↔ e ∈ writeMatches s packs := fun e =>
      ((storedCaps_perm hperm).filter _).mem_iff
    have hbest' := widest_of_choice hbest
    have hwide : Widest (writeMatches s packs) best :=
      ⟨(hmem best).mp hbest'.1, fun d hd => hbest'.2 d ((hmem d).mpr hd)⟩
    have hwide' : Widest (writeMatches s packs) c :=
      ⟨(hmem c).mp hc, fun d hd => by rw [heq]; exact hwide.2 d hd⟩
    exact (h c best hwide' hwide heq).not_lt

/-- **Ties go to the last one inserted**: every capability is wider than itself,
so what is returned has the fewest delegations of those with its area exactly
when the insertions do not end with a longer chain for the same area, and in
every order of insertion exactly when all of a widest area have equally many. -/
theorem fewest_delegations_iff (packs : List CapabilityPack) (s : CapSelector) :
    (∀ a, isWiderThan a a = true) ∧
    (FewestDelegations (writeMatches s packs) ((insertAll packs).getWriteCap s) ↔
      ¬ LongerLast (writeMatches s packs)) ∧
    ((∀ packs' : List CapabilityPack, packs'.Perm packs →
        FewestDelegations (writeMatches s packs') ((insertAll packs').getWriteCap s)) ↔
      ∀ c d, Widest (writeMatches s packs) c → Widest (writeMatches s packs) d →
        areaOf c = areaOf d → delegationsOf c = delegationsOf d) := by
  refine ⟨fun a => isWiderThan_iff.mpr (.refl _), ?_, fewest_in_every_order_iff packs s⟩
  rw [getWriteCap_insertAll]
  exact fewestDelegations_iff _

/-- A full capability that was delegated once. -/
def Sample.delegatedCapability : McCapability :=
  { Sample.writeCapability with
    receiver := .ofByte 3
    delegations := [⟨.full, .ofByte 3, .ofByte 0⟩] }

/-- Any user, the widest area. -/
def Sample.widestSelector : CapSelector := ⟨Sample.namespaceId, .any, .widest⟩

/-- The delegated capability is inserted after the original one, and returned. -/
theorem delegated_capability_returned :
    (¬ ∀ packs s,
      FewestDelegations (writeMatches s packs) ((insertAll packs).getWriteCap s)) ∧
    ¬ ∀ a b, isWiderThan a b = true → isWiderThan b a = false := by
  constructor
  · intro h
    refine h [.write Sample.writeCapability, .write Sample.delegatedCapability]
      Sample.widestSelector Sample.delegatedCapability ?_ Sample.writeCapability ?_ rfl ?_
    · decide
    · decide
    · decide
  · intro h
    have hself : isWiderThan Sample.writeCapability Sample.writeCapability = true := by decide
    exact absurd hself (by rw [h _ _ hself]; decide)

end IrohWillow
