import IrohWillow.Lib.SelfDelimiting
import IrohWillow.Proto.Pai

/-!
# The encoding of fragments

`Encodable for Fragment` of `proto/pai.rs`: the bytes that are hashed into the
group. Ids are 32 bytes, a path is the number of its components and each
component after its length, all numbers in two big-endian bytes.

Pairs differ from pairs and triples from triples, since the encoding of a path
is self-delimiting. No tag tells a triple from a pair: a subspace id can spell
the number of components of another path and go on with its components, which
then interlock with the path of the triple (`Overlaid`). Subspace ids of that
kind are in `encode_triple_eq_pair`.
-/

namespace IrohWillow

/-- A number in two big-endian bytes. -/
def encodeU16 (n : Nat) : List Byte := [Fin.ofNat 256 (n / 256), Fin.ofNat 256 n]

/-- A component of a path. -/
def encodeComponent (component : List Byte) : List Byte :=
  encodeU16 component.length ++ component

/-- `Encodable for Path`. -/
def Path.encode (p : Path) : List Byte :=
  encodeU16 p.components.length ++ p.components.flatMap encodeComponent

/-- `Encodable for Fragment`. -/
def Fragment.encode : Fragment → List Byte
  | .pair (namespaceId, path) => namespaceId.toList ++ path.encode
  | .triple (namespaceId, subspaceId, path) =>
      namespaceId.toList ++ (subspaceId.toList ++ path.encode)

/-! ## Paths and ids -/

theorem encodeU16_selfDelimiting : SelfDelimiting (· < 2 ^ 16) encodeU16 := by
  apply SelfDelimiting.of_length 2 (fun _ _ => rfl)
  intro a b ha hb h
  simp only [encodeU16, List.cons.injEq, and_true, Fin.ext_iff, Fin.ofNat] at h
  omega

theorem encodeComponent_selfDelimiting :
    SelfDelimiting (fun c : List Byte => c.length < 2 ^ 16) encodeComponent := by
  have hbyte : SelfDelimiting (fun _ : Byte => True) (fun b => [b]) :=
    SelfDelimiting.of_length 1 (fun _ _ => rfl) fun a b _ _ h => List.singleton_injective h
  intro a b ha hb r s h
  apply encodeU16_selfDelimiting.counted hbyte a b ⟨ha, fun _ _ => trivial⟩ ⟨hb, fun _ _ => trivial⟩
  simpa [encodeComponent] using h

theorem Path.encode_selfDelimiting : SelfDelimiting (fun _ : Path => True) Path.encode := by
  intro p q _ _ r s h
  have hcount (p : Path) : p.components.length < 2 ^ 16 :=
    p.componentCount.trans_lt (by decide)
  have hcomponent (p : Path) : ∀ c ∈ p.components, c.length < 2 ^ 16 := fun c hc =>
    (p.componentLength c hc).trans_lt (by decide)
  obtain ⟨hpq, hrs⟩ := encodeU16_selfDelimiting.counted encodeComponent_selfDelimiting
    p.components q.components ⟨hcount p, hcomponent p⟩ ⟨hcount q, hcomponent q⟩ r s h
  exact ⟨Path.components_injective hpq, hrs⟩

theorem Bytes.toList_selfDelimiting (n : Nat) :
    SelfDelimiting (fun _ : Bytes n => True) Bytes.toList :=
  SelfDelimiting.of_length n (fun a _ => a.length_eq) fun _ _ _ _ h => Bytes.toList_injective n h

/-! ## Components that interlock -/

/-- The bytes `left` and then the components `upper` are the components `lower`,
all components after their lengths: a component of `lower` either lies within
the bytes that are left, or it ends them and has bytes over itself, on the other
side. -/
inductive Interlocks : List Byte → List (List Byte) → List (List Byte) → Prop
  | done : Interlocks [] [] []
  | within {left : List Byte} {upper lower : List (List Byte)} (c : List Byte)
      (h : Interlocks left upper lower) : Interlocks (encodeComponent c ++ left) upper (c :: lower)
  | across {left left' : List Byte} {upper lower : List (List Byte)} {c : List Byte}
      (hsplit : encodeComponent c = left ++ left') (hleft : left' ≠ [])
      (h : Interlocks left' lower upper) : Interlocks left upper (c :: lower)

theorem encodeComponent_ne_nil (c : List Byte) : encodeComponent c ≠ [] := by
  simp [encodeComponent, encodeU16]

theorem Interlocks.append_eq {left : List Byte} {upper lower : List (List Byte)}
    (h : Interlocks left upper lower) :
    left ++ upper.flatMap encodeComponent = lower.flatMap encodeComponent := by
  induction h with
  | done => rfl
  | within c _ ih => rw [List.append_assoc, ih, List.flatMap_cons]
  | across hsplit _ _ ih => rw [← ih, List.flatMap_cons, hsplit, List.append_assoc]

/-- With the component that comes next on either side, one side gets shorter. -/
theorem Interlocks.of_append_eq {n : Nat} {left : List Byte} {upper lower : List (List Byte)}
    (hn : upper.length + lower.length = n)
    (h : left ++ upper.flatMap encodeComponent = lower.flatMap encodeComponent) :
    Interlocks left upper lower := by
  induction n generalizing left upper lower with
  | zero =>
      obtain rfl : upper = [] := List.eq_nil_of_length_eq_zero (by omega)
      obtain rfl : lower = [] := List.eq_nil_of_length_eq_zero (by omega)
      obtain rfl : left = [] := by simpa using h
      exact .done
  | succ n ih =>
      cases lower with
      | nil =>
          obtain ⟨rfl, hupper⟩ := List.append_eq_nil_iff.mp h
          cases upper with
          | nil => exact .done
          | cons c upper =>
              exact absurd (List.append_eq_nil_iff.mp hupper).1 (encodeComponent_ne_nil c)
      | cons c lower =>
          rw [List.length_cons] at hn
          rw [List.flatMap_cons] at h
          rcases List.append_eq_append_iff.mp h with ⟨left', hsplit, hrest⟩ | ⟨rest, rfl, hrest⟩
          · by_cases hleft : left' = []
            · -- the component is all that is left
              rw [hleft, List.append_nil] at hsplit
              rw [hleft, List.nil_append] at hrest
              rw [← hsplit, ← List.append_nil (encodeComponent c)]
              exact .within c (ih (by omega) hrest)
            · exact .across hsplit hleft (ih (by omega) hrest.symm)
          · exact .within c (ih (by omega) hrest.symm)

/-! ## Fragments -/

namespace Fragment

/-- The subspace id begins with the number of components of the other path, and
these components interlock with the rest of the id and the path of the triple. -/
structure Overlaid (subspaceId : SubspaceId) (path other : Path) : Prop where
  count : subspaceId.toList.take 2 = encodeU16 other.components.length
  components : Interlocks (subspaceId.toList.drop 2 ++ encodeU16 path.components.length)
    path.components other.components

theorem overlaid_iff {subspaceId : SubspaceId} {path other : Path} :
    Overlaid subspaceId path other ↔ subspaceId.toList ++ path.encode = other.encode := by
  have hsplit : subspaceId.toList ++ path.encode = subspaceId.toList.take 2 ++
      (subspaceId.toList.drop 2 ++ encodeU16 path.components.length ++
        path.components.flatMap encodeComponent) := by
    rw [List.append_assoc, ← List.append_assoc (List.take 2 _), List.take_append_drop]
    rfl
  have hlen : (subspaceId.toList.take 2).length = (encodeU16 other.components.length).length := by
    rw [List.length_take, subspaceId.length_eq]
    rfl
  rw [hsplit, Path.encode]
  constructor
  · rintro ⟨hcount, hcomponents⟩
    rw [hcount, hcomponents.append_eq]
  · intro h
    obtain ⟨hcount, hcomponents⟩ := List.append_inj h hlen
    exact ⟨hcount, .of_append_eq rfl hcomponents⟩

instance (subspaceId : SubspaceId) (path other : Path) :
    Decidable (Overlaid subspaceId path other) :=
  decidable_of_iff _ overlaid_iff.symm

/-- One fragment is a pair, the other a triple of the same namespace whose
subspace id and path overlay the path of the pair. -/
def Clash : Fragment → Fragment → Prop
  | .pair (ns, path), .triple (ns', subspaceId, path') => ns = ns' ∧ Overlaid subspaceId path' path
  | .triple (ns, subspaceId, path), .pair (ns', path') => ns = ns' ∧ Overlaid subspaceId path path'
  | .pair _, .pair _ => False
  | .triple _, .triple _ => False

theorem encode_pair_inj {f g : FragmentPair} (h : encode (.pair f) = encode (.pair g)) : f = g :=
  ((Bytes.toList_selfDelimiting 32).append Path.encode_selfDelimiting).injOn ⟨trivial, trivial⟩
    ⟨trivial, trivial⟩ h

theorem encode_triple_inj {f g : FragmentTriple} (h : encode (.triple f) = encode (.triple g)) :
    f = g :=
  ((Bytes.toList_selfDelimiting 32).append ((Bytes.toList_selfDelimiting 32).append
    Path.encode_selfDelimiting)).injOn ⟨trivial, trivial, trivial⟩ ⟨trivial, trivial, trivial⟩ h

theorem encode_pair_eq_triple_iff (ns ns' : NamespaceId) (path path' : Path)
    (subspaceId : SubspaceId) :
    encode (.pair (ns, path)) = encode (.triple (ns', subspaceId, path')) ↔
      ns = ns' ∧ Overlaid subspaceId path' path := by
  constructor
  · intro h
    obtain ⟨hns, hrest⟩ := Bytes.toList_selfDelimiting 32 ns ns' trivial trivial _ _ h
    exact ⟨hns, overlaid_iff.mpr hrest.symm⟩
  · rintro ⟨rfl, hover⟩
    show ns.toList ++ path.encode = ns.toList ++ (subspaceId.toList ++ path'.encode)
    rw [overlaid_iff.mp hover]

theorem encode_eq_iff (f g : Fragment) : f.encode = g.encode ↔ f = g ∨ Clash f g := by
  cases f with
  | pair p =>
      cases g with
      | pair q =>
          simp only [Clash, or_false, pair.injEq]
          exact ⟨encode_pair_inj, fun h => by rw [h]⟩
      | triple q =>
          simp only [Clash, reduceCtorEq, false_or]
          exact encode_pair_eq_triple_iff p.1 q.1 p.2 q.2.2 q.2.1
  | triple p =>
      cases g with
      | pair q =>
          simp only [Clash, reduceCtorEq, false_or]
          rw [eq_comm, encode_pair_eq_triple_iff q.1 p.1 q.2 p.2.2 p.2.1, eq_comm (a := q.1)]
      | triple q =>
          simp only [Clash, or_false, triple.injEq]
          exact ⟨encode_triple_inj, fun h => by rw [h]⟩

theorem Clash.ne {f g : Fragment} (h : Clash f g) : f ≠ g := by
  rintro rfl
  cases f <;> exact h

/-- The bytes of two fragments tell them apart, and so do their group members,
whatever hash without collisions makes them. -/
structure Distinguished (f g : Fragment) : Prop where
  bytes : f.encode = g.encode → f = g
  members : ∀ (PsiGroup : Type) (hash : List Byte → PsiGroup), Function.Injective hash →
    hash f.encode = hash g.encode → f = g

/-- Two fragments are told apart exactly when they are not a pair and a triple
of one namespace that overlay. -/
theorem fragments_distinguished_iff (f g : Fragment) : Distinguished f g ↔ ¬ Clash f g := by
  constructor
  · intro h hclash
    exact hclash.ne (h.bytes ((encode_eq_iff f g).mpr (Or.inr hclash)))
  · intro hnot
    have hbytes : f.encode = g.encode → f = g := by
      intro h
      rcases (encode_eq_iff f g).mp h with heq | hclash
      · exact heq
      · exact absurd hclash hnot
    exact ⟨hbytes, fun _ _ hhash h => hbytes (hhash h)⟩

/-- A subspace id that starts like a path of one component which goes to the
end of the encoding: the triple has the bytes of a pair. -/
theorem encode_triple_eq_pair (ns : NamespaceId) {subspaceId : SubspaceId} {path other : Path}
    (hother : other.components = [subspaceId.toList.drop 4 ++ path.encode])
    (hhead : subspaceId.toList.take 4 = encodeU16 1 ++ encodeU16 (28 + path.encode.length)) :
    encode (.triple (ns, subspaceId, path)) = encode (.pair (ns, other)) := by
  refine ((encode_pair_eq_triple_iff ns ns other path subspaceId).mpr
    ⟨rfl, overlaid_iff.mpr ?_⟩).symm
  have hlen : (subspaceId.toList.drop 4 ++ path.encode).length = 28 + path.encode.length := by
    rw [List.length_append, List.length_drop, subspaceId.length_eq]
  show subspaceId.toList ++ path.encode = other.encode
  calc subspaceId.toList ++ path.encode
      = subspaceId.toList.take 4 ++ (subspaceId.toList.drop 4 ++ path.encode) := by
        rw [← List.append_assoc, List.take_append_drop]
    _ = encodeU16 1 ++ encodeComponent (subspaceId.toList.drop 4 ++ path.encode) := by
        rw [hhead, encodeComponent, hlen, List.append_assoc]
    _ = other.encode := by
        show _ = encodeU16 other.components.length ++ other.components.flatMap encodeComponent
        rw [hother]
        simp

end Fragment

namespace Sample

/-- A subspace id that spells the header of a component of 30 bytes. -/
def headerId : SubspaceId := ⟨[0, 1, 0, 30] ++ List.replicate 28 7, by decide⟩

/-- The path of that component. -/
def headerPath : Path :=
  ⟨[List.replicate 28 7 ++ [0, 0]], by decide, by decide, by decide⟩

/-- The triple of that subspace at the empty path is encoded like a pair. -/
theorem triple_encodes_like_pair :
    ¬ ∀ f g : Fragment, Fragment.Distinguished f g := by
  intro h
  have hbytes : Fragment.encode (.triple (namespaceId, headerId, .empty)) =
      Fragment.encode (.pair (namespaceId, headerPath)) :=
    Fragment.encode_triple_eq_pair namespaceId (by decide) (by decide)
  cases (h _ _).bytes hbytes

end Sample

end IrohWillow
