import Mathlib

/-!
# Frontiers of a strict order

A replicated set in which elements may supersede each other keeps only its
*frontier*: the elements that nothing in the set supersedes. This module has
the order theory of that idea for an arbitrary strict order `r`, read
"`r d x`: `d` supersedes `x`".

* `frontier r S` is what is left of `S`;
* `Covered r T x` says that `x` is in `T`, or has been superseded by an
  element of `T`: it is what a replica holding `T` knows about `x`.

On finite sets every element is covered by the frontier
(`covered_frontier`), so that one more element either is covered already and
changes nothing, or enters and takes out exactly what it supersedes
(`frontier_insert_of_covered`, `frontier_insert_of_not_covered`).
-/

namespace Frontier

variable {α : Type*} (r : α → α → Prop)

/-- The elements of `S` that no element of `S` supersedes. -/
def frontier (S : Set α) : Set α := {x | x ∈ S ∧ ∀ d ∈ S, ¬ r d x}

/-- `x` is an element of `T` or is superseded by one. -/
def Covered (T : Set α) (x : α) : Prop := ∃ d ∈ T, d = x ∨ r d x

variable {r} {S T : Set α} {x d e : α}

theorem frontier_subset : frontier r S ⊆ S := fun _ h => h.1

@[simp] theorem frontier_frontier : frontier r (frontier r S) = frontier r S := by
  ext x
  exact ⟨fun h => h.1, fun h => ⟨h, fun d hd => h.2 d hd.1⟩⟩

theorem Covered.of_mem (h : x ∈ T) : Covered r T x := ⟨x, h, Or.inl rfl⟩

theorem Covered.mono (hST : S ⊆ T) (h : Covered r S x) : Covered r T x := by
  obtain ⟨d, hd, hdx⟩ := h
  exact ⟨d, hST hd, hdx⟩

section StrictOrder

variable [IsStrictOrder α r]

/-- Covering passes down along the order. -/
theorem Covered.of_rel (h : Covered r T d) (hdx : r d x) : Covered r T x := by
  obtain ⟨c, hc, rfl | hcd⟩ := h
  · exact ⟨c, hc, Or.inr hdx⟩
  · exact ⟨c, hc, Or.inr (IsTrans.trans c d x hcd hdx)⟩

/-- A set that covers every element of `S` covers all that `S` covers. -/
theorem Covered.trans (h : Covered r S x) (hST : ∀ y ∈ S, Covered r T y) :
    Covered r T x := by
  obtain ⟨d, hd, rfl | hdx⟩ := h
  · exact hST d hd
  · exact (hST d hd).of_rel hdx

/-- An element covered by a frontier is superseded by nothing of its set
unless it is missing from the frontier. -/
theorem not_rel_of_mem_frontier (hx : x ∈ frontier r S) (h : Covered r S e) :
    ¬ r e x := by
  intro hex
  obtain ⟨d, hd, rfl | hde⟩ := h
  · exact hx.2 d hd hex
  · exact hx.2 d hd (IsTrans.trans d e x hde hex)

/-- Going up from an element of a finite set ends on the frontier. -/
theorem covered_frontier (hfin : S.Finite) (hx : x ∈ S) :
    Covered r (frontier r S) x := by
  have hwf : S.WellFoundedOn r := hfin.wellFoundedOn
  refine hwf.induction hx (P := fun y => Covered r (frontier r S) y) ?_
  intro y hy ih
  by_cases hmin : ∃ d ∈ S, r d y
  · obtain ⟨d, hd, hdy⟩ := hmin
    exact (ih d hd hdy).of_rel hdy
  · exact Covered.of_mem ⟨hy, fun d hd hdy => hmin ⟨d, hd, hdy⟩⟩

/-- On finite sets the frontier covers as much as the set. -/
theorem covered_frontier_iff (hfin : S.Finite) :
    Covered r (frontier r S) x ↔ Covered r S x :=
  ⟨Covered.mono frontier_subset, fun h => h.trans fun _ hy => covered_frontier hfin hy⟩

/-- A covered element adds nothing. -/
theorem frontier_insert_of_covered (hcov : Covered r (frontier r S) e) :
    frontier r (insert e S) = frontier r S := by
  ext x
  constructor
  · rintro ⟨hx, hmin⟩
    rcases hx with rfl | hx
    · obtain ⟨d, hd, rfl | hdx⟩ := hcov
      · exact hd
      · exact absurd hdx (hmin d (Or.inr hd.1))
    · exact ⟨hx, fun d hd => hmin d (Or.inr hd)⟩
  · intro hx
    refine ⟨Or.inr hx.1, fun d hd => ?_⟩
    rcases hd with rfl | hd
    · exact not_rel_of_mem_frontier hx (hcov.mono frontier_subset)
    · exact hx.2 d hd

/-- An element that is not covered enters and takes out what it supersedes. -/
theorem frontier_insert_of_not_covered (hfin : S.Finite)
    (hcov : ¬ Covered r (frontier r S) e) :
    frontier r (insert e S) = insert e {x | x ∈ frontier r S ∧ ¬ r e x} := by
  ext x
  constructor
  · rintro ⟨hx, hmin⟩
    rcases hx with rfl | hx
    · exact Or.inl rfl
    · exact Or.inr ⟨⟨hx, fun d hd => hmin d (Or.inr hd)⟩, hmin e (Or.inl rfl)⟩
  · rintro (rfl | ⟨hx, hex⟩)
    · refine ⟨Or.inl rfl, fun d hd hdx => ?_⟩
      rcases hd with rfl | hd
      · exact irrefl_of r d hdx
      · exact hcov ((covered_frontier hfin hd).of_rel hdx)
    · refine ⟨Or.inr hx.1, fun d hd => ?_⟩
      rcases hd with rfl | hd
      · exact hex
      · exact hx.2 d hd

/-- A frontier inside a set that covers the set is the frontier of the set. -/
theorem eq_frontier_of_covered (hT : frontier r T = T) (hTS : T ⊆ S)
    (hcov : ∀ x ∈ S, Covered r T x) : T = frontier r S := by
  ext x
  constructor
  · intro hx
    refine ⟨hTS hx, fun d hd hdx => ?_⟩
    have hx' : x ∈ frontier r T := by
      rw [hT]
      exact hx
    exact not_rel_of_mem_frontier hx' (hcov d hd) hdx
  · rintro ⟨hx, hmin⟩
    obtain ⟨d, hd, rfl | hdx⟩ := hcov x hx
    · exact hd
    · exact absurd hdx (hmin d (hTS hd))

end StrictOrder

end Frontier
