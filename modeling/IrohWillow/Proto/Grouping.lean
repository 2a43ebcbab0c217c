import IrohWillow.Proto.Increment

/-!
# Groupings of entries

Ranges, three-dimensional ranges, areas and areas of interest
(`willow_data_model::grouping`), and `AreaExt::to_range` of
`proto/grouping.rs`.

Two functions of `willow_data_model` are more than their documentation shows
and stay parameters, in the class `WillowDataModel`: the least path above all
extensions of a path, and the intersection of two areas of interest. What the
crate relies on is stated as `GreaterButNotPrefixedSpec` and
`IntersectionSpec`.
-/

namespace IrohWillow

/-- The end of a range: exclusive, or absent. -/
inductive RangeEnd (α : Type) where
  | closed (stop : α)
  | opened
  deriving DecidableEq, Repr

/-- A half-open range. -/
structure Range (α : Type) where
  start : α
  stop : RangeEnd α
  deriving DecidableEq, Repr

namespace Range

variable {α : Type} [LinearOrder α]

/-- `Range::new_open`. -/
def newOpen (start : α) : Range α := ⟨start, .opened⟩

/-- `Range::new_closed`: `none` when the range would be empty. -/
def newClosed (start stop : α) : Option (Range α) :=
  if start < stop then some ⟨start, .closed stop⟩ else none

/-- `Range::includes`. -/
def Includes (r : Range α) (value : α) : Prop :=
  r.start ≤ value ∧ match r.stop with
    | .closed stop => value < stop
    | .opened => True

instance (r : Range α) (value : α) : Decidable (r.Includes value) :=
  match h : r.stop with
  | .closed stop => decidable_of_iff (r.start ≤ value ∧ value < stop) (by simp [Includes, h])
  | .opened => decidable_of_iff (r.start ≤ value) (by simp [Includes, h])

/-- `Range::includes_range`: the starts and the ends are ordered. -/
def IncludesRange (r s : Range α) : Prop :=
  r.start ≤ s.start ∧ match r.stop, s.stop with
    | .opened, _ => True
    | .closed _, .opened => False
    | .closed a, .closed b => b ≤ a

instance (r s : Range α) : Decidable (r.IncludesRange s) :=
  match hr : r.stop, hs : s.stop with
  | .opened, _ => decidable_of_iff (r.start ≤ s.start) (by simp [IncludesRange, hr])
  | .closed _, .opened => isFalse (by simp [IncludesRange, hr, hs])
  | .closed a, .closed b =>
      decidable_of_iff (r.start ≤ s.start ∧ b ≤ a) (by simp [IncludesRange, hr, hs])

theorem IncludesRange.trans {r s t : Range α} (hrs : r.IncludesRange s)
    (hst : s.IncludesRange t) : r.IncludesRange t := by
  obtain ⟨h1, h2⟩ := hrs
  obtain ⟨h3, h4⟩ := hst
  refine ⟨h1.trans h3, ?_⟩
  cases hr : r.stop <;> cases hs : s.stop <;> cases ht : t.stop <;>
    simp only [hr, hs, ht] at h2 h4 ⊢
  exact h4.trans h2

theorem IncludesRange.antisymm {r s : Range α} (hrs : r.IncludesRange s)
    (hsr : s.IncludesRange r) : r = s := by
  obtain ⟨start, stop⟩ := r
  obtain ⟨start', stop'⟩ := s
  obtain rfl : start = start' := le_antisymm hrs.1 hsr.1
  cases stop with
  | opened =>
      cases stop' with
      | opened => rfl
      | closed b => exact hsr.2.elim
  | closed a =>
      cases stop' with
      | opened => exact hrs.2.elim
      | closed b =>
          obtain rfl : a = b := le_antisymm hsr.2 hrs.2
          rfl

/-- The part of a range below a value. -/
def below (r : Range α) (value : α) : Range α := ⟨r.start, .closed value⟩

/-- The part of a range from a value on. -/
def above (r : Range α) (value : α) : Range α := ⟨value, r.stop⟩

/-- A value of a range cuts it in two. -/
theorem includes_iff_below_or_above {r : Range α} {x v : α} (hx : r.Includes x) :
    r.Includes v ↔ (r.below x).Includes v ∨ (r.above x).Includes v := by
  obtain ⟨start, stop⟩ := r
  obtain ⟨hstart, hstop⟩ := hx
  cases stop with
  | closed stop =>
      simp only [Includes, below, above] at hstart hstop ⊢
      constructor
      · rintro ⟨h1, h2⟩
        exact (lt_or_ge v x).imp (fun h => ⟨h1, h⟩) fun h => ⟨h, h2⟩
      · rintro (⟨h1, h2⟩ | ⟨h1, h2⟩)
        · exact ⟨h1, h2.trans hstop⟩
        · exact ⟨hstart.trans h1, h2⟩
  | opened =>
      simp only [Includes, below, above, and_true] at hstart ⊢
      constructor
      · intro h1
        exact (lt_or_ge v x).imp (fun h => ⟨h1, h⟩) id
      · rintro (⟨h1, -⟩ | h1)
        · exact h1
        · exact hstart.trans h1

theorem not_above_of_below {r : Range α} {x v : α} (h : (r.below x).Includes v) :
    ¬ (r.above x).Includes v := fun h' => absurd h.2 (not_lt.mpr h'.1)

theorem not_below_self {r : Range α} {x : α} : ¬ (r.below x).Includes x :=
  fun h => lt_irrefl _ h.2

theorem newClosed_includes {start stop value : α} {r : Range α}
    (h : newClosed start stop = some r) : r.Includes value ↔ start ≤ value ∧ value < stop := by
  unfold newClosed at h
  split at h
  · obtain rfl := Option.some.inj h
    rfl
  · cases h

end Range

/-! ## Three-dimensional ranges -/

/-- A product of a subspace, a path and a time range. -/
structure Range3d where
  subspaces : Range SubspaceId
  paths : Range Path
  times : Range Timestamp
  deriving DecidableEq

namespace Range3d

/-- `Range3d::includes_entry`. -/
def IncludesEntry (r : Range3d) (e : Entry) : Prop :=
  r.subspaces.Includes e.subspaceId ∧ r.paths.Includes e.path ∧ r.times.Includes e.timestamp

instance (r : Range3d) (e : Entry) : Decidable (r.IncludesEntry e) :=
  inferInstanceAs (Decidable (_ ∧ _ ∧ _))

/-- Every entry of `r` is an entry of `s`. -/
def Within (r s : Range3d) : Prop := ∀ e, r.IncludesEntry e → s.IncludesEntry e

/-- The range of all entries. -/
def full : Range3d :=
  { subspaces := .newOpen ⟨List.replicate 32 0, by simp⟩
    paths := .newOpen .empty
    times := .newOpen 0 }

end Range3d

/-! ## Areas -/

/-- The subspaces of an area: one, or all. -/
inductive AreaSubspace where
  | any
  | id (id : SubspaceId)
  deriving DecidableEq

namespace AreaSubspace

/-- Whether a subspace is in the grouping. -/
def Includes : AreaSubspace → SubspaceId → Prop
  | .any, _ => True
  | .id i, j => i = j

instance : (a : AreaSubspace) → (j : SubspaceId) → Decidable (a.Includes j)
  | .any, _ => isTrue trivial
  | .id i, j => inferInstanceAs (Decidable (i = j))

/-- Whether one grouping of subspaces contains another. -/
def IncludesSubspace : AreaSubspace → AreaSubspace → Prop
  | .any, _ => True
  | .id _, .any => False
  | .id i, .id j => i = j

instance : (a b : AreaSubspace) → Decidable (a.IncludesSubspace b)
  | .any, _ => isTrue trivial
  | .id _, .any => isFalse not_false
  | .id i, .id j => inferInstanceAs (Decidable (i = j))

theorem IncludesSubspace.trans {a b c : AreaSubspace} (hab : a.IncludesSubspace b)
    (hbc : b.IncludesSubspace c) : a.IncludesSubspace c := by
  cases a <;> cases b <;> cases c <;> simp_all [IncludesSubspace]

theorem IncludesSubspace.antisymm {a b : AreaSubspace} (hab : a.IncludesSubspace b)
    (hba : b.IncludesSubspace a) : a = b := by
  cases a <;> cases b <;> simp_all [IncludesSubspace]

end AreaSubspace

/-- A grouping of entries by subspace, path prefix and time range. -/
structure Area where
  subspace : AreaSubspace
  path : Path
  times : Range Timestamp
  deriving DecidableEq

/-- An area with limits on how much of it is of interest. -/
structure AreaOfInterest where
  area : Area
  maxCount : U64
  maxSize : U64
  deriving DecidableEq

namespace Area

/-- `Area::includes_entry`. -/
def IncludesEntry (a : Area) (e : Entry) : Prop :=
  a.subspace.Includes e.subspaceId ∧ a.path.IsPrefixOf e.path ∧ a.times.Includes e.timestamp

instance (a : Area) (e : Entry) : Decidable (a.IncludesEntry e) :=
  inferInstanceAs (Decidable (_ ∧ _ ∧ _))

/-- `Area::includes_area`. -/
def IncludesArea (a b : Area) : Prop :=
  a.subspace.IncludesSubspace b.subspace ∧ a.path.IsPrefixOf b.path ∧
    a.times.IncludesRange b.times

instance (a b : Area) : Decidable (a.IncludesArea b) :=
  inferInstanceAs (Decidable (_ ∧ _ ∧ _))

theorem IncludesArea.trans {a b c : Area} (hab : a.IncludesArea b) (hbc : b.IncludesArea c) :
    a.IncludesArea c :=
  ⟨hab.1.trans hbc.1, hab.2.1.trans hbc.2.1, hab.2.2.trans hbc.2.2⟩

theorem IncludesArea.refl (a : Area) : a.IncludesArea a := by
  refine ⟨?_, .refl _, le_refl _, ?_⟩
  · cases a.subspace <;> simp [AreaSubspace.IncludesSubspace]
  · cases a.times.stop <;> simp

theorem IncludesArea.antisymm {a b : Area} (hab : a.IncludesArea b) (hba : b.IncludesArea a) :
    a = b := by
  obtain ⟨subspace, path, times⟩ := a
  obtain ⟨subspace', path', times'⟩ := b
  obtain rfl : subspace = subspace' := hab.1.antisymm hba.1
  obtain rfl : path = path' := hab.2.1.antisymm hba.2.1
  obtain rfl : times = times' := hab.2.2.antisymm hba.2.2
  rfl

/-- The area of a whole namespace. -/
def full : Area := ⟨.any, .empty, .newOpen 0⟩

end Area

/-! ## What the crate takes from `willow_data_model` -/

/-- The functions of `willow_data_model` that are not spelled out here. -/
class WillowDataModel where
  /-- `Path::greater_but_not_prefixed`. -/
  greaterButNotPrefixed : Path → Option Path
  /-- `AreaOfInterest::intersection`. -/
  intersection : AreaOfInterest → AreaOfInterest → Option AreaOfInterest

open WillowDataModel

/-- `greater_but_not_prefixed p` is the least path above all extensions of
`p`, and `None` when there is no such path. -/
def GreaterButNotPrefixedSpec [WillowDataModel] (p : Path) : Prop :=
  match greaterButNotPrefixed p with
  | some q => (∀ x, p.IsPrefixOf x → x < q) ∧ ∀ y, (∀ x, p.IsPrefixOf x → x < y) → q ≤ y
  | none => ¬ ∃ y, ∀ x, p.IsPrefixOf x → x < y

/-- The intersection of two areas of interest is an area inside both. -/
def IntersectionSpec [WillowDataModel] : Prop :=
  ∀ a b c, intersection a b = some c → a.area.IncludesArea c.area ∧ b.area.IncludesArea c.area

/-! ## Areas as ranges -/

namespace Area

/-- The range of exactly one subspace, as `to_range` builds it. -/
def subspaceRange : AreaSubspace → Option (Range SubspaceId)
  | .any => some Range3d.full.subspaces
  | .id i =>
      match UserId.successor i with
      | none => some (Range.newOpen i)
      | some stop => Range.newClosed i stop

variable [WillowDataModel]

/-- The range of all extensions of a path, as `to_range` builds it. -/
def pathRange (p : Path) : Option (Range Path) :=
  match greaterButNotPrefixed p with
  | none => some (Range.newOpen p)
  | some stop => Range.newClosed p stop

/-- `AreaExt::to_range`; `none` is a failed `expect`. -/
def toRange (a : Area) : Option Range3d :=
  match subspaceRange a.subspace, pathRange a.path with
  | some subspaces, some paths => some ⟨subspaces, paths, a.times⟩
  | _, _ => none

end Area

/-- A path above `p` that does not extend it is above all extensions of it. -/
theorem Path.lt_of_not_isPrefixOf {p x y : Path} (hpx : p ≤ x) (hnot : ¬ p.IsPrefixOf x)
    (hpy : p.IsPrefixOf y) : y < x := by
  have key : ∀ (a b c : List (List Byte)), a ≤ b → ¬ a <+: b → a <+: c → c < b := by
    intro a
    induction a with
    | nil => intro b c _ h _; exact absurd (List.nil_prefix) h
    | cons u a ih =>
        intro b c hab hnot hac
        cases b with
        | nil => exact absurd hab (not_le.mpr (List.nil_lt_cons _ _))
        | cons v b =>
            cases c with
            | nil => simp at hac
            | cons w c =>
                obtain ⟨rfl, hac'⟩ := List.cons_prefix_cons.mp hac
                rw [List.cons_lt_cons_iff]
                rcases lt_trichotomy u v with huv | rfl | huv
                · exact Or.inl huv
                · refine Or.inr ⟨rfl, ih b c ?_ ?_ hac'⟩
                  · by_contra hba
                    exact (not_lt.mpr hab) (List.cons_lt_cons_iff.mpr
                      (Or.inr ⟨rfl, not_le.mp hba⟩))
                  · intro h
                    exact hnot (List.cons_prefix_cons.mpr ⟨rfl, h⟩)
                · exact absurd (List.cons_lt_cons_iff.mpr (Or.inl huv)) (not_lt.mpr hab)
  exact key p.components x.components y.components hpx hnot hpy

theorem Path.IsPrefixOf.le {p x : Path} (h : p.IsPrefixOf x) : p ≤ x := by
  obtain ⟨t, ht⟩ := h
  have key : ∀ a t : List (List Byte), a ≤ a ++ t := by
    intro a t
    induction a with
    | nil => cases t with
      | nil => exact le_refl _
      | cons u t => exact (List.nil_lt_cons u t).le
    | cons u a ih =>
        rw [List.cons_append]
        by_contra hlt
        rcases List.cons_lt_cons_iff.mp (not_le.mp hlt) with h | ⟨-, h⟩
        · exact lt_irrefl _ h
        · exact (not_lt.mpr ih) h
  show p.components ≤ x.components
  rw [← ht]
  exact key _ _

namespace Area

theorem subspaceRange_includes {s : AreaSubspace} {r : Range SubspaceId} {i : SubspaceId}
    (h : subspaceRange s = some r) (hi : r.Includes i) : s.Includes i := by
  cases s with
  | any => trivial
  | id j =>
      simp only [subspaceRange] at h
      split at h
      · rename_i hsucc
        obtain rfl := Option.some.inj h
        exact (Bytes.eq_of_le_of_increment_none hsucc hi.1).symm
      · rename_i stop hsucc
        rw [Range.newClosed_includes h] at hi
        exact (Bytes.eq_of_le_of_lt_increment hsucc hi.1 hi.2).symm

variable [WillowDataModel]

theorem pathRange_includes {p x : Path} {r : Range Path} (hp : GreaterButNotPrefixedSpec p)
    (h : pathRange p = some r) (hx : r.Includes x) : p.IsPrefixOf x := by
  by_contra hnot
  have habove : p ≤ x → ∀ y, p.IsPrefixOf y → y < x := fun hpx _ hy =>
    Path.lt_of_not_isPrefixOf hpx hnot hy
  unfold pathRange at h
  unfold GreaterButNotPrefixedSpec at hp
  split at h
  · rename_i hgreater
    rw [hgreater] at hp
    obtain rfl := Option.some.inj h
    exact hp ⟨x, habove hx.1⟩
  · rename_i stop hgreater
    rw [hgreater] at hp
    rw [Range.newClosed_includes h] at hx
    exact absurd (hp.2 x (habove hx.1)) (not_le.mpr hx.2)

/-- The range of an area holds no entry outside the area. -/
theorem includesEntry_of_toRange {a : Area} {r : Range3d} {e : Entry}
    (hp : GreaterButNotPrefixedSpec a.path) (h : a.toRange = some r)
    (he : r.IncludesEntry e) : a.IncludesEntry e := by
  unfold toRange at h
  split at h
  · rename_i subspaces paths hs hpr
    obtain rfl := Option.some.inj h
    exact ⟨subspaceRange_includes hs he.1, pathRange_includes hp hpr he.2.1, he.2.2⟩
  · cases h

/-- Every area has a range. -/
theorem exists_toRange {a : Area} (hp : GreaterButNotPrefixedSpec a.path) :
    ∃ r, a.toRange = some r := by
  obtain ⟨subspaces, hsubspaces⟩ : ∃ r, subspaceRange a.subspace = some r := by
    cases a.subspace with
    | any => exact ⟨_, rfl⟩
    | id j =>
        unfold subspaceRange
        dsimp only
        split
        · exact ⟨_, rfl⟩
        · rename_i stop hsucc
          exact ⟨_, if_pos (Bytes.lt_increment hsucc)⟩
  obtain ⟨paths, hpaths⟩ : ∃ r, pathRange a.path = some r := by
    unfold pathRange
    unfold GreaterButNotPrefixedSpec at hp
    split
    · exact ⟨_, rfl⟩
    · rename_i stop hgreater
      rw [hgreater] at hp
      exact ⟨_, if_pos (hp.1 a.path (.refl a.path))⟩
  exact ⟨⟨subspaces, paths, a.times⟩, by simp only [toRange, hsubspaces, hpaths]⟩

omit [WillowDataModel] in
/-- A subspace of the grouping is in the range, also without a successor. -/
theorem includes_subspaceRange {s : AreaSubspace} {r : Range SubspaceId} {i : SubspaceId}
    (h : subspaceRange s = some r) (hi : s.Includes i) : r.Includes i := by
  cases s with
  | any =>
      simp only [subspaceRange, Option.some.injEq] at h
      subst h
      refine ⟨?_, trivial⟩
      have hzero := replicate_zero_le i.toList
      rw [i.length_eq] at hzero
      exact hzero
  | id j =>
      obtain rfl : j = i := hi
      simp only [subspaceRange] at h
      split at h
      · obtain rfl := Option.some.inj h
        exact ⟨le_refl j, trivial⟩
      · rename_i stop hsucc
        rw [Range.newClosed_includes h]
        exact ⟨le_refl j, Bytes.lt_increment hsucc⟩

/-- An extension of a path is in the range, also when nothing is above all
extensions. -/
theorem includes_pathRange {p x : Path} {r : Range Path} (hp : GreaterButNotPrefixedSpec p)
    (h : pathRange p = some r) (hx : p.IsPrefixOf x) : r.Includes x := by
  unfold pathRange at h
  unfold GreaterButNotPrefixedSpec at hp
  split at h
  · obtain rfl := Option.some.inj h
    exact ⟨hx.le, trivial⟩
  · rename_i stop hgreater
    rw [hgreater] at hp
    rw [Range.newClosed_includes h]
    exact ⟨hx.le, hp.1 x hx⟩

/-- The range of an area holds the entries of the area. -/
theorem toRange_includesEntry {a : Area} {r : Range3d} {e : Entry}
    (hp : GreaterButNotPrefixedSpec a.path) (h : a.toRange = some r)
    (he : a.IncludesEntry e) : r.IncludesEntry e := by
  obtain ⟨hsubspace, hpath, htimes⟩ := he
  unfold toRange at h
  split at h
  · rename_i subspaces paths hs hpr
    obtain rfl := Option.some.inj h
    exact ⟨includes_subspaceRange hs hsubspace, includes_pathRange hp hpr hpath, htimes⟩
  · cases h

/-- An area and its range hold the same entries: `to_range` does not panic, and
its result includes exactly what the area includes. -/
theorem toRange_includes_iff (a : Area) (hp : GreaterButNotPrefixedSpec a.path) :
    ∃ r, a.toRange = some r ∧ ∀ e, r.IncludesEntry e ↔ a.IncludesEntry e := by
  obtain ⟨r, hr⟩ := exists_toRange hp
  exact ⟨r, hr, fun _ => ⟨includesEntry_of_toRange hp hr, toRange_includesEntry hp hr⟩⟩

end Area

/-! ## A sample area -/

/-- The least byte string above another has one more zero byte. -/
theorem append_zero_le {c u : List Byte} (h : c < u) : c ++ [0] ≤ u := by
  induction c generalizing u with
  | nil =>
      cases u with
      | nil => exact absurd h (lt_irrefl _)
      | cons b t =>
          refine not_lt.mp fun hlt => ?_
          rcases List.cons_lt_cons_iff.mp hlt with hb | ⟨-, ht⟩
          · exact absurd hb (Fin.not_lt_zero b)
          · exact absurd ht (List.not_lt_nil t)
  | cons a c ih =>
      cases u with
      | nil => exact absurd h (List.not_lt_nil _)
      | cons b t =>
          rcases List.cons_lt_cons_iff.mp h with hab | ⟨rfl, hct⟩
          · exact le_of_lt (List.cons_lt_cons_iff.mpr (Or.inl hab))
          · refine not_lt.mp fun hlt => ?_
            rcases List.cons_lt_cons_iff.mp hlt with ha | ⟨-, ht⟩
            · exact lt_irrefl _ ha
            · exact not_lt.mpr (ih hct) ht

namespace Sample

/-- A path of one short component, and the one with a zero byte more. -/
def shortPath : Path := ⟨[[1]], by decide, by decide, by decide⟩

def longerPath : Path := ⟨[[1, 0]], by decide, by decide, by decide⟩

/-- What comes after `shortPath`. -/
@[reducible] def afterShortPath : WillowDataModel where
  greaterButNotPrefixed p := if p = shortPath then some longerPath else none
  intersection _ _ := none

attribute [local instance] afterShortPath

theorem shortPath_greaterButNotPrefixed : GreaterButNotPrefixedSpec shortPath := by
  show (∀ x, shortPath.IsPrefixOf x → x < longerPath) ∧
    ∀ y, (∀ x, shortPath.IsPrefixOf x → x < y) → longerPath ≤ y
  constructor
  · rintro x ⟨t, ht⟩
    show x.components < [[1, 0]]
    rw [← ht]
    exact List.cons_lt_cons_iff.mpr (Or.inl (by decide))
  · intro y hy
    have hshort : [[1]] < y.components := hy shortPath (.refl _)
    show [[1, 0]] ≤ y.components
    cases hc : y.components with
    | nil => rw [hc] at hshort; exact absurd hshort (List.not_lt_nil _)
    | cons u t =>
        rw [hc] at hshort
        rcases List.cons_lt_cons_iff.mp hshort with hu | ⟨rfl, -⟩
        · refine not_lt.mp fun hlt => ?_
          rcases List.cons_lt_cons_iff.mp hlt with hu' | ⟨-, ht⟩
          · exact not_lt.mpr (append_zero_le hu) hu'
          · exact absurd ht (List.not_lt_nil t)
        · -- an extension of the path would be below itself
          exact absurd (hy y ⟨t, by rw [hc]; rfl⟩) (lt_irrefl y)

/-- An area of the largest subspace. -/
def largestSubspaceArea : Area :=
  ⟨.id ⟨List.replicate 32 255, by simp⟩, shortPath, .newOpen 0⟩

/-- The range of a path below the largest subspace. -/
theorem toRange_largest_subspace :
    ∃ r, largestSubspaceArea.toRange = some r ∧
      ∀ e, r.IncludesEntry e ↔ largestSubspaceArea.IncludesEntry e :=
  Area.toRange_includes_iff largestSubspaceArea shortPath_greaterButNotPrefixed

end Sample

end IrohWillow
