import IrohWillow.Lib.Frontier

/-!
# The Willow data model

Identifiers, paths, entries and authorised entries as the crate uses them
(`proto/data_model.rs`, `proto/keys.rs`), with the one relation everything
else is about: an entry *prunes* another when it is in the same subspace, at a
prefix of its path, and newer.

`is_newer_than` is the strict lexicographic order on timestamp, payload digest
and payload length. Byte strings are ordered lexicographically, paths
component by component.
-/

namespace IrohWillow

/-- A `u8`. -/
abbrev Byte := Fin 256

/-- A `u64`. -/
abbrev U64 := Fin (2 ^ 64)

instance Byte.neZero : NeZero 256 := ⟨by decide⟩

instance U64.neZero : NeZero (2 ^ 64) := ⟨by decide⟩

/-- A fixed-length byte array, `[u8; n]`. -/
structure Bytes (n : Nat) where
  toList : List Byte
  length_eq : toList.length = n
  deriving DecidableEq

namespace Bytes

theorem toList_injective (n : Nat) : Function.Injective (toList (n := n)) := by
  rintro ⟨a, ha⟩ ⟨b, hb⟩ h
  simpa using h

/-- The derived `Ord` of `[u8; n]`: lexicographic. -/
instance (n : Nat) : LinearOrder (Bytes n) := LinearOrder.lift' toList (toList_injective n)

/-- The array whose last byte is `b` and whose other bytes are zero. -/
def ofByte {n : Nat} (b : Byte) : Bytes (n + 1) := ⟨List.replicate n 0 ++ [b], by simp⟩

end Bytes

/-- A namespace id: the 32 bytes of a public key. -/
abbrev NamespaceId := Bytes 32

/-- A user id: the 32 bytes of a public key. -/
abbrev UserId := Bytes 32

/-- Subspaces are owned by users. -/
abbrev SubspaceId := UserId

/-- Microseconds since the Unix epoch. -/
abbrev Timestamp := U64

/-- A BLAKE3 hash of a payload. -/
abbrev PayloadDigest := Bytes 32

/-- The 64 bytes of an ed25519 signature made by a user. -/
abbrev UserSignature := Bytes 64

/-! ## Paths -/

def maxComponentLength : Nat := 4096
def maxComponentCount : Nat := 1024
def maxPathLength : Nat := 4096

/-- A path: byte-string components within the three limits. -/
structure Path where
  components : List (List Byte)
  componentLength : ∀ c ∈ components, c.length ≤ maxComponentLength
  componentCount : components.length ≤ maxComponentCount
  pathLength : (components.map List.length).sum ≤ maxPathLength
  deriving DecidableEq

namespace Path

theorem components_injective : Function.Injective components := by
  rintro ⟨a, _, _, _⟩ ⟨b, _, _, _⟩ h
  simpa using h

/-- Paths are compared component by component. -/
instance : LinearOrder Path := LinearOrder.lift' components components_injective

/-- The path without components. -/
def empty : Path := ⟨[], by simp, by simp, by simp⟩

instance : Inhabited Path := ⟨empty⟩

/-- `Path::is_prefix_of`. -/
def IsPrefixOf (p q : Path) : Prop := p.components <+: q.components

instance : DecidableRel IsPrefixOf := fun p q =>
  inferInstanceAs (Decidable (p.components <+: q.components))

theorem IsPrefixOf.refl (p : Path) : p.IsPrefixOf p := List.prefix_refl _

theorem IsPrefixOf.trans {p q s : Path} (hpq : p.IsPrefixOf q) (hqs : q.IsPrefixOf s) :
    p.IsPrefixOf s := List.IsPrefix.trans hpq hqs

theorem IsPrefixOf.antisymm {p q : Path} (hpq : p.IsPrefixOf q) (hqp : q.IsPrefixOf p) :
    p = q :=
  components_injective (hpq.eq_of_length (Nat.le_antisymm hpq.length_le hqp.length_le))

end Path

/-! ## Entries -/

/-- The metadata of one payload. -/
structure Entry where
  namespaceId : NamespaceId
  subspaceId : SubspaceId
  path : Path
  timestamp : Timestamp
  payloadLength : U64
  payloadDigest : PayloadDigest
  deriving DecidableEq

namespace Entry

/-- `Entry::is_newer_than`: later timestamp, then greater digest, then greater
payload length. -/
def IsNewerThan (a b : Entry) : Prop :=
  b.timestamp < a.timestamp ∨
    (b.timestamp = a.timestamp ∧
      (b.payloadDigest < a.payloadDigest ∨
        (b.payloadDigest = a.payloadDigest ∧ b.payloadLength < a.payloadLength)))

instance : DecidableRel IsNewerThan := fun a b =>
  inferInstanceAs (Decidable (b.timestamp < a.timestamp ∨
    (b.timestamp = a.timestamp ∧
      (b.payloadDigest < a.payloadDigest ∨
        (b.payloadDigest = a.payloadDigest ∧ b.payloadLength < a.payloadLength)))))

theorem IsNewerThan.irrefl (a : Entry) : ¬ a.IsNewerThan a := by
  rintro (h | ⟨-, h | ⟨-, h⟩⟩) <;> exact lt_irrefl _ h

theorem IsNewerThan.trans {a b c : Entry} (hab : a.IsNewerThan b) (hbc : b.IsNewerThan c) :
    a.IsNewerThan c := by
  rcases hab with h1 | ⟨h1, h2⟩ <;> rcases hbc with h3 | ⟨h3, h4⟩
  · exact Or.inl (h3.trans h1)
  · exact Or.inl (h3 ▸ h1)
  · exact Or.inl (h1 ▸ h3)
  · refine Or.inr ⟨h3.trans h1, ?_⟩
    rcases h2 with h2 | ⟨h2, h2'⟩ <;> rcases h4 with h4 | ⟨h4, h4'⟩
    · exact Or.inl (h4.trans h2)
    · exact Or.inl (h4 ▸ h2)
    · exact Or.inl (h2 ▸ h4)
    · exact Or.inr ⟨h4.trans h2, h4'.trans h2'⟩

/-- Two entries that differ only in what `is_newer_than` compares are
comparable. -/
theorem isNewerThan_total {a b : Entry} (hns : a.namespaceId = b.namespaceId)
    (hsub : a.subspaceId = b.subspaceId) (hpath : a.path = b.path) :
    a = b ∨ a.IsNewerThan b ∨ b.IsNewerThan a := by
  rcases lt_trichotomy a.timestamp b.timestamp with h | h | h
  · exact Or.inr (Or.inr (Or.inl h))
  · rcases lt_trichotomy a.payloadDigest b.payloadDigest with h' | h' | h'
    · exact Or.inr (Or.inr (Or.inr ⟨h, Or.inl h'⟩))
    · rcases lt_trichotomy a.payloadLength b.payloadLength with h'' | h'' | h''
      · exact Or.inr (Or.inr (Or.inr ⟨h, Or.inr ⟨h', h''⟩⟩))
      · left
        cases a; cases b
        simp_all
      · exact Or.inr (Or.inl (Or.inr ⟨h.symm, Or.inr ⟨h'.symm, h''⟩⟩))
    · exact Or.inr (Or.inl (Or.inr ⟨h.symm, Or.inl h'⟩))
  · exact Or.inr (Or.inl (Or.inl h))

/-- Prefix pruning: `d` is in the subspace of `e`, at a prefix of its path, and
newer. -/
def Prunes (d e : Entry) : Prop :=
  d.subspaceId = e.subspaceId ∧ d.path.IsPrefixOf e.path ∧ d.IsNewerThan e

instance : DecidableRel Prunes := fun d e =>
  inferInstanceAs (Decidable
    (d.subspaceId = e.subspaceId ∧ d.path.IsPrefixOf e.path ∧ d.IsNewerThan e))

/-- Pruning is a strict order. -/
instance : IsStrictOrder Entry Prunes where
  irrefl a h := IsNewerThan.irrefl a h.2.2
  trans _ _ _ hab hbc :=
    ⟨hab.1.trans hbc.1, hab.2.1.trans hbc.2.1, hab.2.2.trans hbc.2.2⟩

end Entry

/-- The entries of a list that no entry of the list prunes. -/
def survivors (l : List Entry) : Set Entry := Frontier.frontier Entry.Prunes {e | e ∈ l}

theorem survivors_concat (l : List Entry) (e : Entry) :
    survivors (l ++ [e]) = Frontier.frontier Entry.Prunes (insert e {x | x ∈ l}) := by
  unfold survivors
  congr 1
  ext x
  simp [or_comm]

theorem survivors_concat_of_covered {l : List Entry} {e : Entry}
    (h : Frontier.Covered Entry.Prunes (survivors l) e) : survivors (l ++ [e]) = survivors l := by
  rw [survivors_concat, Frontier.frontier_insert_of_covered h]
  rfl

theorem survivors_concat_of_not_covered {l : List Entry} {e : Entry}
    (h : ¬ Frontier.Covered Entry.Prunes (survivors l) e) :
    survivors (l ++ [e]) = insert e {x | x ∈ survivors l ∧ ¬ e.Prunes x} := by
  rw [survivors_concat, Frontier.frontier_insert_of_not_covered (List.finite_toSet _) h]
  rfl

@[simp] theorem survivors_nil : survivors [] = ∅ := by
  simp [survivors, Frontier.frontier]

end IrohWillow
