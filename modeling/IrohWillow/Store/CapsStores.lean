import IrohWillow.Lib.Reduce
import IrohWillow.Session.AoiFinder
import IrohWillow.Store.InsertEntry

/-!
# The two capability stores

`CapsStorage` as `store/memory.rs` and as `store/persistent.rs` have it, for
read and for write capabilities. The in-memory store keeps a vector for each
namespace and reduces the matching ones with `is_wider_than`; the persistent
one keeps a multimap of `redb`, scans it from the namespace on and takes the
first match.

Both kinds of capabilities are handled alike, so each function is written once
for the class `StoredCap`. A multimap of `redb` is the list of its rows in byte
order, and the bytes of a value are those of `redb::Value`.
-/

namespace IrohWillow

/-- `CapabilityPack`. -/
inductive CapabilityPack where
  | read (auth : ReadAuthorisation)
  | write (cap : McCapability)
  deriving DecidableEq

/-- `CapabilityPack::namespace`. -/
def CapabilityPack.namespaceId : CapabilityPack → NamespaceId
  | .read auth => auth.namespaceId
  | .write cap => cap.grantedNamespace

/-- What is stored for a capability of one kind. -/
class StoredCap (α : Type) where
  /-- The capability itself. -/
  cap : α → McCapability
  /-- What a pack has of this kind. -/
  ofPack : CapabilityPack → Option α

instance writeStoredCap : StoredCap McCapability where
  cap := id
  ofPack
    | .write cap => some cap
    | .read _ => none

instance readStoredCap : StoredCap ReadAuthorisation where
  cap := ReadAuthorisation.readCap
  ofPack
    | .read auth => some auth
    | .write _ => none

open StoredCap

/-- The namespace under which something is stored. -/
def namespaceOf {α : Type} [StoredCap α] (c : α) : NamespaceId := (cap c).grantedNamespace

/-- What was inserted of one kind. -/
def storedCaps (α : Type) [StoredCap α] (packs : List CapabilityPack) : List α :=
  packs.filterMap ofPack

/-- `is_covered_by` for something stored. -/
def covers {α : Type} [StoredCap α] (s : CapSelector) (c : α) : Bool := s.isCoveredBy (cap c)

/-- The stored capabilities that match a selector. -/
def matching {α : Type} [StoredCap α] (s : CapSelector) (stored : List α) : List α :=
  stored.filter (covers s)

/-! ## In memory -/

/-- `HashMap<NamespaceId, Vec<_>>`. -/
abbrev NamespaceCaps (α : Type) := AList fun _ : NamespaceId => List α

namespace NamespaceCaps

variable {α : Type} [StoredCap α]

/-- The capabilities of a namespace. -/
def get (map : NamespaceCaps α) (ns : NamespaceId) : List α := (map.lookup ns).getD []

/-- Add a capability to its namespace. -/
def push (map : NamespaceCaps α) (c : α) : NamespaceCaps α :=
  map.insert (namespaceOf c) (map.get (namespaceOf c) ++ [c])

/-- The capabilities of one namespace, or of all. -/
def list (map : NamespaceCaps α) : Option NamespaceId → List α
  | some ns => map.get ns
  | none => map.entries.flatMap fun row => row.2

/-- Select the best candidate of the namespace. -/
def best (map : NamespaceCaps α) (s : CapSelector) : Option α :=
  Reduce.reduce (fun prev next => if isWiderThan (cap next) (cap prev) then next else prev)
    (matching s (map.get s.namespaceId))

end NamespaceCaps

namespace Memory

/-- `CapsStore`, both of its maps. -/
structure CapsMaps where
  writeCaps : NamespaceCaps McCapability := ∅
  readCaps : NamespaceCaps ReadAuthorisation := ∅

namespace CapsMaps

/-- `CapsStore::get_write_cap`. -/
def getWriteCap (caps : CapsMaps) (s : CapSelector) : Option McCapability := caps.writeCaps.best s

/-- `CapsStore::get_read_cap`. -/
def getReadCap (caps : CapsMaps) (s : CapSelector) : Option ReadAuthorisation :=
  caps.readCaps.best s

/-- `CapsStore::list_write_caps`. -/
def listWriteCaps (caps : CapsMaps) (ns : Option NamespaceId) : List McCapability :=
  caps.writeCaps.list ns

/-- `CapsStore::list_read_caps`. -/
def listReadCaps (caps : CapsMaps) (ns : Option NamespaceId) : List ReadAuthorisation :=
  caps.readCaps.list ns

/-- `CapsStore::insert`. -/
def insert (caps : CapsMaps) : CapabilityPack → CapsMaps
  | .read auth => { caps with readCaps := caps.readCaps.push auth }
  | .write cap => { caps with writeCaps := caps.writeCaps.push cap }

/-- A store into which the packs were inserted, one after the other. -/
def insertAll (packs : List CapabilityPack) : CapsMaps := packs.foldl insert {}

/-- The write capabilities are selected as `Memory.CapsStore` does it. -/
theorem getWriteCap_eq (caps : CapsMaps) (s : CapSelector) :
    caps.getWriteCap s = CapsStore.getWriteCap ⟨caps.writeCaps.get⟩ s := by
  show Reduce.reduce better ((caps.writeCaps.get s.namespaceId).filter s.isCoveredBy) = _
  unfold CapsStore.getWriteCap
  cases (caps.writeCaps.get s.namespaceId).filter s.isCoveredBy <;> rfl

end CapsMaps

end Memory

/-! ## Persistent -/

/-- `redb::Value`: the bytes of a stored value, and the value read back. -/
class RedbValue (α : Type) where
  asBytes : α → List Byte
  fromBytes : List Byte → α

/-- A multimap table of `redb` with namespaces as keys: its rows in byte order. -/
abbrev Multimap := List (NamespaceId ×ₗ List Byte)

namespace Multimap

/-- Insert a row, unless it is there. -/
def insert (t : Multimap) (row : NamespaceId ×ₗ List Byte) : Multimap :=
  if row ∈ t then t else t.orderedInsert (· ≤ ·) row

/-- The rows from a key on. -/
def rangeFrom (t : Multimap) (start : NamespaceId) : Multimap :=
  t.filter fun row => decide (start ≤ (ofLex row).1)

variable {α : Type} [StoredCap α] [RedbValue α]

/-- The row of something stored. -/
def rowOf (c : α) : NamespaceId ×ₗ List Byte := toLex (namespaceOf c, RedbValue.asBytes c)

/-- Read back a row. -/
def value (α : Type) [RedbValue α] (row : NamespaceId ×ₗ List Byte) : α :=
  RedbValue.fromBytes (ofLex row).2

/-- The values of all rows from the namespace on; without one from
`NamespaceId::default` on. -/
def list (α : Type) [RedbValue α] (t : Multimap) (ns : Option NamespaceId) : List α :=
  (t.rangeFrom (ns.getD (.ofByte 0))).map (value α)

/-- The first match from the namespace of the selector on. -/
def first (α : Type) [StoredCap α] [RedbValue α] (t : Multimap) (s : CapSelector) : Option α :=
  (list α t (some s.namespaceId)).find? (covers s)

end Multimap

namespace Persistent

variable [RedbValue McCapability] [RedbValue ReadAuthorisation]

/-- The tables `read_caps` and `write_caps`. -/
structure CapsTables where
  readCaps : Multimap := []
  writeCaps : Multimap := []

namespace CapsTables

/-- `insert`. -/
def insert (caps : CapsTables) : CapabilityPack → CapsTables
  | .read auth => { caps with readCaps := Multimap.insert caps.readCaps (Multimap.rowOf auth) }
  | .write cap => { caps with writeCaps := Multimap.insert caps.writeCaps (Multimap.rowOf cap) }

/-- A store into which the packs were inserted, one after the other. -/
def insertAll (packs : List CapabilityPack) : CapsTables := packs.foldl insert {}

/-- `list_read_caps`. -/
def listReadCaps (caps : CapsTables) (ns : Option NamespaceId) : List ReadAuthorisation :=
  Multimap.list ReadAuthorisation caps.readCaps ns

/-- `list_write_caps`. -/
def listWriteCaps (caps : CapsTables) (ns : Option NamespaceId) : List McCapability :=
  Multimap.list McCapability caps.writeCaps ns

/-- `get_read_cap`. -/
def getReadCap (caps : CapsTables) (s : CapSelector) : Option ReadAuthorisation :=
  Multimap.first ReadAuthorisation caps.readCaps s

/-- `get_write_cap`. -/
def getWriteCap (caps : CapsTables) (s : CapSelector) : Option McCapability :=
  Multimap.first McCapability caps.writeCaps s

end CapsTables

end Persistent

/-! ## What the in-memory store holds -/

section Memory

open NamespaceCaps Memory.CapsMaps

variable {α : Type} [StoredCap α] {s : CapSelector}

theorem NamespaceCaps.get_push (map : NamespaceCaps α) (c : α) (ns : NamespaceId) :
    (map.push c).get ns = if ns = namespaceOf c then map.get ns ++ [c] else map.get ns := by
  by_cases h : ns = namespaceOf c
  · subst h
    simp [push, NamespaceCaps.get]
  · simp [push, NamespaceCaps.get, h, AList.lookup_insert_ne]

/-- What a selector covers is in its namespace. -/
theorem namespaceOf_of_covers {c : α} (h : covers s c = true) : namespaceOf c = s.namespaceId := by
  unfold covers CapSelector.isCoveredBy at h
  simp only [Bool.and_eq_true, decide_eq_true_eq] at h
  exact h.1.1.symm

/-- One kind of capability in the store after any insertions. -/
structure HoldsAll (map : NamespaceCaps α) (stored : List α) : Prop where
  get_eq : ∀ ns, map.get ns = stored.filter fun c => decide (namespaceOf c = ns)

theorem HoldsAll.empty : HoldsAll (∅ : NamespaceCaps α) [] := ⟨fun _ => rfl⟩

theorem HoldsAll.push {map : NamespaceCaps α} {stored : List α} (h : HoldsAll map stored)
    (c : α) : HoldsAll (map.push c) (stored ++ [c]) := by
  refine ⟨fun ns => ?_⟩
  rw [get_push, h.get_eq, List.filter_append, List.filter_singleton]
  by_cases hns : ns = namespaceOf c
  · simp [hns]
  · simp [hns, Ne.symm hns]

theorem storedCaps_concat (packs : List CapabilityPack) (pack : CapabilityPack) :
    storedCaps α (packs ++ [pack]) = storedCaps α packs ++ (ofPack pack).toList := by
  unfold storedCaps
  rw [List.filterMap_append]
  cases h : (ofPack pack : Option α) <;> simp [h]

theorem Memory.CapsMaps.insertAll_concat (packs : List CapabilityPack) (pack : CapabilityPack) :
    insertAll (packs ++ [pack]) = (insertAll packs).insert pack := by
  simp [insertAll]

theorem Memory.CapsMaps.holdsAll (packs : List CapabilityPack) :
    HoldsAll (insertAll packs).writeCaps (storedCaps McCapability packs) ∧
      HoldsAll (insertAll packs).readCaps (storedCaps ReadAuthorisation packs) := by
  induction packs using List.reverseRecOn with
  | nil => exact ⟨.empty, .empty⟩
  | append_singleton packs pack ih =>
      rw [insertAll_concat, storedCaps_concat, storedCaps_concat]
      cases pack with
      | read auth => exact ⟨by simpa [insert, ofPack] using ih.1, ih.2.push auth⟩
      | write cap => exact ⟨ih.1.push cap, by simpa [insert, ofPack] using ih.2⟩

/-- The candidates of a selector are all stored capabilities that match it. -/
theorem HoldsAll.matching_get {map : NamespaceCaps α} {stored : List α} (h : HoldsAll map stored) :
    matching s (map.get s.namespaceId) = matching s stored := by
  rw [h.get_eq, matching, matching, List.filter_filter]
  refine List.filter_congr fun c _ => ?_
  by_cases hc : covers s c = true
  · simp [hc, namespaceOf_of_covers hc]
  · simp [hc]

end Memory

end IrohWillow
