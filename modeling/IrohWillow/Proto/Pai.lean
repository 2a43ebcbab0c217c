import IrohWillow.Proto.Meadowcap

/-!
# Private area intersection

The primitives of `proto/pai.rs`. A read capability is turned into fragments,
one for each prefix of its path; a capability for a single subspace has a
second set of fragments without the subspace, by which it can be found by the
holders of all subspaces. The group, its scalars and their encoding, and the
prefixes of a path come from other crates.
-/

namespace IrohWillow

/-! ## Fragments -/

/-- `FragmentPair`. -/
abbrev FragmentPair := NamespaceId × Path

/-- `FragmentTriple`. -/
abbrev FragmentTriple := NamespaceId × SubspaceId × Path

/-- `Fragment`. -/
inductive Fragment where
  | pair (pair : FragmentPair)
  | triple (triple : FragmentTriple)
  deriving DecidableEq

/-- `Fragment::into_parts`. -/
def Fragment.intoParts : Fragment → NamespaceId × AreaSubspace × Path
  | .pair (namespaceId, path) => (namespaceId, .any, path)
  | .triple (namespaceId, subspaceId, path) => (namespaceId, .id subspaceId, path)

theorem Fragment.intoParts_injective : Function.Injective Fragment.intoParts := by
  intro f g h
  cases f with
  | pair p =>
      cases g with
      | pair q => simpa [intoParts, Prod.ext_iff] using h
      | triple q => simp [intoParts] at h
  | triple p =>
      cases g with
      | pair q => simp [intoParts] at h
      | triple q => simpa [intoParts, Prod.ext_iff] using h

/-- `FragmentKind`. -/
inductive FragmentKind where
  | primary
  | secondary
  deriving DecidableEq, Repr

/-- `FragmentKind::is_secondary`. -/
def FragmentKind.isSecondary : FragmentKind → Bool
  | .primary => false
  | .secondary => true

/-- `FragmentSet`. -/
inductive FragmentSet where
  | complete (pairs : List FragmentPair)
  | selective (primary : List FragmentTriple) (secondary : List FragmentPair)

/-- `FragmentKit`. -/
inductive FragmentKit where
  | complete (namespaceId : NamespaceId) (path : Path)
  | selective (namespaceId : NamespaceId) (subspaceId : SubspaceId) (path : Path)

/-- `PaiScheme`, with what it takes from other crates: the group of
`curve25519_dalek` and `Path::all_prefixes`. -/
class PaiScheme where
  PsiGroup : Type
  PsiScalar : Type
  /-- `[u8; 32]` -/
  GroupBytes : Type
  decidableEqGroup : DecidableEq PsiGroup
  /-- `PaiScheme::hash_into_group`. -/
  hashIntoGroup : Fragment → PsiGroup
  /-- `PaiScheme::scalar_mult`. -/
  scalarMult : PsiGroup → PsiScalar → PsiGroup
  /-- `PsiGroup::to_bytes`. -/
  toBytes : PsiGroup → GroupBytes
  /-- `PsiGroup::from_bytes`; `none` is `InvalidPsiGroup`. -/
  fromBytes : GroupBytes → Option PsiGroup
  /-- `Path::all_prefixes`. -/
  allPrefixes : Path → List Path

attribute [reducible, instance] PaiScheme.decidableEqGroup

export PaiScheme (PsiGroup PsiScalar GroupBytes)

namespace PaiScheme

/-- `PaiScheme::get_fragment_kit`. -/
def getFragmentKit (cap : ReadCapability) : FragmentKit :=
  match cap.grantedArea.subspace with
  | .any => .complete cap.grantedNamespace cap.grantedArea.path
  | .id grantedSubspace =>
      .selective cap.grantedNamespace grantedSubspace cap.grantedArea.path

variable [PaiScheme]

/-- `PaiScheme::is_group_equal`. -/
def isGroupEqual (a b : PsiGroup) : Bool := decide (a = b)

/-- The laws of the group and of prefixes: two peers get the same group member
for a fragment, whoever multiplies first, and for different fragments different
ones; `all_prefixes` ends with the path itself. -/
structure Lawful : Prop where
  hash_injective : Function.Injective hashIntoGroup
  scalarMult_comm : ∀ (g : PsiGroup) a b, scalarMult (scalarMult g a) b =
    scalarMult (scalarMult g b) a
  scalarMult_injective : ∀ (g g' : PsiGroup) a, scalarMult g a = scalarMult g' a → g = g'
  fromBytes_toBytes : ∀ g, fromBytes (toBytes g) = some g
  mem_allPrefixes : ∀ p q, q ∈ allPrefixes p ↔ q.IsPrefixOf p
  nodup_allPrefixes : ∀ p, (allPrefixes p).Nodup
  getLast?_allPrefixes : ∀ p, (allPrefixes p).getLast? = some p

end PaiScheme

/-- `FragmentKit::into_fragment_set`. -/
def FragmentKit.intoFragmentSet [PaiScheme] : FragmentKit → FragmentSet
  | .complete namespaceId path =>
      .complete ((PaiScheme.allPrefixes path).map fun p => (namespaceId, p))
  | .selective namespaceId subspaceId path =>
      .selective ((PaiScheme.allPrefixes path).map fun p => (namespaceId, subspaceId, p))
        ((PaiScheme.allPrefixes path).map fun p => (namespaceId, p))

/-! ## The fragments of a capability -/

/-- The elements of a list, and whether each is the last one. -/
def markLast {α : Type} (l : List α) : List (α × Bool) :=
  l.zipIdx.map fun x => (x.1, x.2 == l.length - 1)

theorem mem_markLast {α : Type} {l : List α} (hl : l.Nodup) {last : α}
    (hlast : l.getLast? = some last) {x : α} {b : Bool} :
    (x, b) ∈ markLast l ↔ x ∈ l ∧ (b = true ↔ x = last) := by
  have hne : l ≠ [] := by
    rintro rfl
    cases hlast
  have hget : l[l.length - 1]? = some last := by
    rw [← List.getLast?_eq_getElem?]
    exact hlast
  have hpos : 0 < l.length := List.length_pos_of_ne_nil hne
  simp only [markLast, List.mem_map, Prod.exists, Prod.mk.injEq]
  constructor
  · rintro ⟨y, i, hmem, rfl, rfl⟩
    obtain ⟨hlt, hy⟩ := List.getElem?_eq_some_iff.mp (List.mem_zipIdx_iff_getElem?.mp hmem)
    have hy : l[i] = y := hy
    refine ⟨hy ▸ List.getElem_mem _, ?_⟩
    rw [beq_iff_eq]
    constructor
    · rintro rfl
      rw [List.getElem?_eq_getElem hlt] at hget
      exact hy.symm.trans (Option.some.inj hget)
    · intro heq
      obtain ⟨hlt', hlast'⟩ := List.getElem?_eq_some_iff.mp hget
      exact (List.Nodup.getElem_inj_iff hl).mp (hy.trans (heq.trans hlast'.symm))
  · rintro ⟨hmem, hb⟩
    obtain ⟨i, hlt, rfl⟩ := List.getElem_of_mem hmem
    refine ⟨l[i], i, List.mem_zipIdx_iff_getElem?.mpr (List.getElem?_eq_getElem hlt), rfl, ?_⟩
    rw [Bool.eq_iff_iff, hb, beq_iff_eq]
    constructor
    · rintro rfl
      rw [List.getElem?_eq_getElem (show l.length - 1 < l.length by omega)] at hget
      exact Option.some.inj hget
    · intro heq
      obtain ⟨hlt', hlast'⟩ := List.getElem?_eq_some_iff.mp hget
      exact (List.Nodup.getElem_inj_iff hl).mp (heq.trans hlast'.symm)

/-! ## Sample values -/

namespace Sample

/-- The first components of a path. -/
def takePath (p : Path) (n : Nat) : Path where
  components := p.components.take n
  componentLength c hc := p.componentLength c (List.mem_of_mem_take hc)
  componentCount := (List.length_take_le' _ _).trans p.componentCount
  pathLength := by
    refine le_trans ?_ p.pathLength
    exact List.Sublist.sum_le_sum ((List.take_sublist _ _).map _) fun _ _ => Nat.zero_le _

/-- Fragments in the place of a group; scalars are added to a counter. -/
@[reducible] def countingScheme : PaiScheme where
  PsiGroup := Fragment × Nat
  PsiScalar := Nat
  GroupBytes := Fragment × Nat
  decidableEqGroup := inferInstance
  hashIntoGroup fragment := (fragment, 0)
  scalarMult group scalar := (group.1, group.2 + scalar)
  toBytes group := group
  fromBytes bytes := some bytes
  allPrefixes p := (List.range (p.components.length + 1)).map (takePath p)

attribute [local instance] countingScheme in
theorem countingScheme_lawful : PaiScheme.Lawful := by
  refine ⟨fun f g h => congrArg Prod.fst h, fun g a b => ?_, fun g g' a h => ?_, fun g => rfl,
    fun p q => ?_, fun p => ?_, fun p => ?_⟩
  · show (g.1, g.2 + a + b) = (g.1, g.2 + b + a)
    rw [Nat.add_right_comm]
  · obtain ⟨h1, h2⟩ := Prod.ext_iff.mp h
    exact Prod.ext h1 (Nat.add_right_cancel h2)
  · show q ∈ (List.range (p.components.length + 1)).map (takePath p) ↔ _
    rw [List.mem_map]
    constructor
    · rintro ⟨n, -, rfl⟩
      exact List.take_prefix _ _
    · intro h
      refine ⟨q.components.length, List.mem_range.mpr (Nat.lt_succ_of_le h.length_le), ?_⟩
      exact Path.components_injective (List.prefix_iff_eq_take.mp h).symm
  · refine List.nodup_range.map_on fun n hn m hm h => ?_
    have hlen := congrArg (fun p => p.components.length) h
    simp only [takePath, List.length_take] at hlen
    have := List.mem_range.mp hn
    have := List.mem_range.mp hm
    omega
  · show ((List.range (p.components.length + 1)).map (takePath p)).getLast? = some p
    rw [List.getLast?_map, List.range_succ, List.getLast?_concat]
    exact congrArg some (Path.components_injective (List.take_length))

end Sample

end IrohWillow
