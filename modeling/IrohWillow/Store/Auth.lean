import IrohWillow.Store.CapsStores

/-!
# Importing and delegating capabilities

`Auth` of `store/auth.rs` over a secret store and a capability store:
`import_caps`, and the two ways to delegate a read authorisation,
`Auth::delegate_read_cap` and `ReadAuthorisation::delegate` of
`proto/meadowcap.rs`.

What `Auth` uses of a capability store is the class `CapsStorage.Store`, and
both stores are instances of it. The delegation of single capabilities belongs
to `meadowcap` and is a parameter, in the class `Delegating`.
-/

namespace IrohWillow

/-- `AuthError`, as far as these functions return it. -/
inductive AuthError where
  | missingUserSecret (user : UserId)
  | noCapability
  | other
  | invalidPack
  | delegationFailed
  | subspaceCapDelegationFailed
  deriving DecidableEq

namespace CapabilityPack

/-- `CapabilityPack::receiver`. -/
def receiver : CapabilityPack → UserId
  | .read auth => auth.readCap.receiver
  | .write cap => cap.receiver

/-- `CapabilityPack::validate` returns `Ok`. -/
def isValid : CapabilityPack → Bool
  | .read auth => decide (auth.readCap.accessMode = .read)
  | .write cap => decide (cap.accessMode = .write)

end CapabilityPack

/-- What `Auth` uses of a capability store. -/
class CapsStorage.Store (κ : Type) where
  insert : κ → CapabilityPack → κ
  getReadCap : κ → CapSelector → Option ReadAuthorisation
  /-- How often a pack is in the store. -/
  copies : κ → CapabilityPack → Nat
  /-- The store takes the pack and stays as it is. -/
  Settled : κ → CapabilityPack → Prop
  insert_of_settled : ∀ {caps pack}, Settled caps pack → insert caps pack = caps
  copies_lt_insert : ∀ {caps pack}, ¬ Settled caps pack →
    copies caps pack < copies (insert caps pack) pack
  copies_le_insert : ∀ caps pack other, copies caps other ≤ copies (insert caps pack) other
  copies_insert_pos : ∀ caps pack, 0 < copies (insert caps pack) pack

/-- `Auth`. A secret store returns an error, no secret, or the secret. -/
structure Auth (S κ : Type) where
  getUser : UserId → Option (Option S)
  caps : κ

open CapsStorage
open CapsStorage.Store hiding insert

/-! ## The two stores -/

section Stores

variable {α : Type} [StoredCap α] [DecidableEq α]

theorem NamespaceCaps.count_push (map : NamespaceCaps α) (c d : α) :
    ((map.push c).get (namespaceOf d)).count d =
      (map.get (namespaceOf d)).count d + if d = c then 1 else 0 := by
  rw [get_push]
  by_cases hdc : d = c
  · subst hdc
    simp
  · rw [if_neg hdc]
    split
    · simp [List.count_append, Ne.symm hdc]
    · rfl

/-- A vector takes every capability once more. -/
instance Memory.store : CapsStorage.Store Memory.CapsMaps where
  insert := Memory.CapsMaps.insert
  getReadCap := Memory.CapsMaps.getReadCap
  copies caps
    | .read auth => (caps.readCaps.get (namespaceOf auth)).count auth
    | .write cap => (caps.writeCaps.get (namespaceOf cap)).count cap
  Settled _ _ := False
  insert_of_settled := False.elim
  copies_lt_insert := by
    intro caps pack _
    cases pack <;> simp [Memory.CapsMaps.insert, NamespaceCaps.count_push]
  copies_le_insert := by
    intro caps pack other
    cases pack <;> cases other <;>
      simp only [Memory.CapsMaps.insert, NamespaceCaps.count_push, le_refl, Nat.le_add_right]
  copies_insert_pos := by
    intro caps pack
    cases pack <;> simp [Memory.CapsMaps.insert, NamespaceCaps.count_push]

theorem Multimap.count_insert (t : Multimap) (row other : NamespaceId ×ₗ List Byte) :
    (Multimap.insert t row).count other =
      t.count other + if other = row ∧ row ∉ t then 1 else 0 := by
  unfold Multimap.insert
  by_cases hrow : row ∈ t
  · rw [if_pos hrow, if_neg (fun h => h.2 hrow), Nat.add_zero]
  · rw [if_neg hrow, (List.perm_orderedInsert (· ≤ ·) row t).count_eq, List.count_cons]
    by_cases hother : other = row
    · subst hother
      simp [hrow]
    · simp [hother, Ne.symm hother]

theorem Multimap.mem_insert_self (t : Multimap) (row : NamespaceId ×ₗ List Byte) :
    row ∈ Multimap.insert t row := by
  unfold Multimap.insert
  split
  · assumption
  · exact (List.perm_orderedInsert (· ≤ ·) row t).mem_iff.mpr List.mem_cons_self

variable [RedbValue McCapability] [RedbValue ReadAuthorisation]

/-- A multimap has every row once. -/
instance Persistent.store : CapsStorage.Store Persistent.CapsTables where
  insert := Persistent.CapsTables.insert
  getReadCap := Persistent.CapsTables.getReadCap
  copies caps
    | .read auth => caps.readCaps.count (Multimap.rowOf auth)
    | .write cap => caps.writeCaps.count (Multimap.rowOf cap)
  Settled caps
    | .read auth => Multimap.rowOf auth ∈ caps.readCaps
    | .write cap => Multimap.rowOf cap ∈ caps.writeCaps
  insert_of_settled := by
    intro caps pack h
    cases pack with
    | read auth => exact congrArg (fun t => { caps with readCaps := t }) (if_pos h)
    | write cap => exact congrArg (fun t => { caps with writeCaps := t }) (if_pos h)
  copies_lt_insert := by
    intro caps pack h
    cases pack with
    | read auth =>
        show _ < (Multimap.insert caps.readCaps (Multimap.rowOf auth)).count _
        rw [Multimap.count_insert, if_pos ⟨rfl, h⟩]
        exact Nat.lt_succ_self _
    | write cap =>
        show _ < (Multimap.insert caps.writeCaps (Multimap.rowOf cap)).count _
        rw [Multimap.count_insert, if_pos ⟨rfl, h⟩]
        exact Nat.lt_succ_self _
  copies_le_insert := by
    intro caps pack other
    cases pack <;> cases other <;> simp [Persistent.CapsTables.insert, Multimap.count_insert]
  copies_insert_pos := by
    intro caps pack
    cases pack with
    | read auth => exact List.count_pos_iff.mpr (Multimap.mem_insert_self _ _)
    | write cap => exact List.count_pos_iff.mpr (Multimap.mem_insert_self _ _)

end Stores

/-! ## Importing -/

/-- A pack to import. The flag says that the capability store fails to insert
it, of which the store keeps nothing. -/
structure Import where
  pack : CapabilityPack
  insertFails : Bool := false

namespace Auth

variable {S κ : Type} [CapsStorage.Store κ]

omit [CapsStorage.Store κ] in
/-- `SecretStorage::has_user`. -/
def hasUser (auth : Auth S κ) (id : UserId) : Option Bool := (auth.getUser id).map Option.isSome

/-- `Auth::import_caps`: what it returns, and the stores after it. -/
def importCaps (auth : Auth S κ) : List Import → Except AuthError Unit × Auth S κ
  | [] => (.ok (), auth)
  | i :: rest =>
      if i.pack.isValid = false then (.error .invalidPack, auth)
      else
        match auth.hasUser i.pack.receiver with
        | none => (.error .other, auth)
        | some false => (.error (.missingUserSecret i.pack.receiver), auth)
        | some true =>
            if i.insertFails then (.error .other, auth)
            else importCaps { auth with caps := Store.insert auth.caps i.pack } rest

omit [CapsStorage.Store κ] in
/-- The pack is valid, the secret of its receiver is there, and it can be
inserted. -/
def accepts (auth : Auth S κ) (i : Import) : Bool :=
  i.pack.isValid && decide (auth.hasUser i.pack.receiver = some true) && !i.insertFails

theorem importCaps_cons_of_accepts {auth : Auth S κ} {i : Import} (h : auth.accepts i = true)
    (rest : List Import) : auth.importCaps (i :: rest) =
      importCaps { auth with caps := Store.insert auth.caps i.pack } rest := by
  simp only [accepts, Bool.and_eq_true, decide_eq_true_eq, Bool.not_eq_true'] at h
  obtain ⟨⟨hvalid, huser⟩, hinsert⟩ := h
  simp [importCaps, hvalid, huser, hinsert]

theorem importCaps_cons_of_not_accepts {auth : Auth S κ} {i : Import} (h : ¬ auth.accepts i = true)
    (rest : List Import) : ∃ e, auth.importCaps (i :: rest) = (.error e, auth) := by
  unfold importCaps
  split
  · exact ⟨_, rfl⟩
  · rename_i hvalid
    split
    · exact ⟨_, rfl⟩
    · exact ⟨_, rfl⟩
    · rename_i huser
      split
      · exact ⟨_, rfl⟩
      · rename_i hinsert
        refine absurd ?_ h
        simp [accepts, hvalid, huser, hinsert]

/-- The packs before the first that is not accepted are inserted. -/
theorem importCaps_caps (auth : Auth S κ) (imports : List Import) :
    (auth.importCaps imports).2.caps =
      ((imports.takeWhile auth.accepts).map Import.pack).foldl Store.insert auth.caps := by
  induction imports generalizing auth with
  | nil => rfl
  | cons i rest ih =>
      by_cases h : auth.accepts i = true
      · rw [importCaps_cons_of_accepts h, ih, List.takeWhile_cons_of_pos h]
        rfl
      · obtain ⟨e, he⟩ := importCaps_cons_of_not_accepts h rest
        rw [he, List.takeWhile_cons_of_neg h]
        rfl

theorem importCaps_ok_iff (auth : Auth S κ) (imports : List Import) :
    (auth.importCaps imports).1 = .ok () ↔ ∀ i ∈ imports, auth.accepts i = true := by
  induction imports generalizing auth with
  | nil => simp [importCaps]
  | cons i rest ih =>
      rw [List.forall_mem_cons]
      by_cases h : auth.accepts i = true
      · rw [importCaps_cons_of_accepts h, ih]
        exact ⟨fun hrest => ⟨h, hrest⟩, fun hboth => hboth.2⟩
      · obtain ⟨e, he⟩ := importCaps_cons_of_not_accepts h rest
        rw [he]
        exact ⟨fun herr => by simp at herr, fun hboth => absurd hboth.1 h⟩

end Auth

section Insertions

variable {κ : Type} [CapsStorage.Store κ]

theorem copies_le_foldl_insert (caps : κ) (packs : List CapabilityPack) (pack : CapabilityPack) :
    copies caps pack ≤ copies (packs.foldl Store.insert caps) pack := by
  induction packs generalizing caps with
  | nil => exact le_refl _
  | cons p packs ih => exact (copies_le_insert caps p pack).trans (ih (Store.insert caps p))

theorem copies_foldl_insert_pos {packs : List CapabilityPack} {pack : CapabilityPack}
    (h : pack ∈ packs) (caps : κ) : 0 < copies (packs.foldl Store.insert caps) pack := by
  induction packs generalizing caps with
  | nil => simp at h
  | cons p packs ih =>
      rcases List.mem_cons.mp h with rfl | hmem
      · exact (copies_insert_pos caps pack).trans_le (copies_le_foldl_insert _ packs pack)
      · exact ih hmem (Store.insert caps p)

/-- Insertions leave a store as it is only if each of them does. -/
theorem foldl_insert_eq_self_iff (caps : κ) (packs : List CapabilityPack) :
    packs.foldl Store.insert caps = caps ↔ ∀ pack ∈ packs, Settled caps pack := by
  induction packs with
  | nil => simp
  | cons p packs ih =>
      rw [List.forall_mem_cons, List.foldl_cons]
      constructor
      · intro h
        have hp : Settled caps p := by
          by_contra hnot
          -- the copies of the pack have grown and never shrink
          have hgrown := (copies_lt_insert hnot).trans_le
            (copies_le_foldl_insert (Store.insert caps p) packs p)
          rw [h] at hgrown
          exact lt_irrefl _ hgrown
        rw [insert_of_settled hp] at h
        exact ⟨hp, ih.mp h⟩
      · rintro ⟨hp, hrest⟩
        rw [insert_of_settled hp]
        exact ih.mpr hrest

end Insertions

namespace Auth

variable {S κ : Type} [CapsStorage.Store κ]

/-- An import changes nothing or stores every pack. -/
structure AllOrNothing (auth : Auth S κ) (imports : List Import) : Prop where
  unchanged : (auth.importCaps imports).1 ≠ .ok () → (auth.importCaps imports).2.caps = auth.caps
  stored : (auth.importCaps imports).1 = .ok () →
    ∀ i ∈ imports, 0 < copies (auth.importCaps imports).2.caps i.pack

/-- An import is all or nothing exactly when every pack is accepted, or the
store already had the packs before the first that is not and keeps no second
copy. -/
theorem import_caps_all_or_nothing_iff (auth : Auth S κ) (imports : List Import) :
    auth.AllOrNothing imports ↔
      (∀ i ∈ imports, auth.accepts i = true) ∨
        ∀ i ∈ imports.takeWhile auth.accepts, Settled auth.caps i.pack := by
  have hsame : (auth.importCaps imports).2.caps = auth.caps ↔
      ∀ i ∈ imports.takeWhile auth.accepts, Settled auth.caps i.pack := by
    rw [importCaps_caps, foldl_insert_eq_self_iff]
    simp
  constructor
  · intro h
    by_cases hall : ∀ i ∈ imports, auth.accepts i = true
    · exact Or.inl hall
    · exact Or.inr (hsame.mp (h.unchanged fun hok => hall ((importCaps_ok_iff auth imports).mp hok)))
  · intro h
    refine ⟨fun herror => ?_, fun hok i hi => ?_⟩
    · rcases h with hall | hsettled
      · exact absurd ((importCaps_ok_iff auth imports).mpr hall) herror
      · exact hsame.mpr hsettled
    · have hall := (importCaps_ok_iff auth imports).mp hok
      rw [importCaps_caps, List.takeWhile_eq_self_iff.mpr hall]
      exact copies_foldl_insert_pos (List.mem_map_of_mem hi) auth.caps

end Auth

namespace Sample

/-- Only the sample user has a secret. -/
def oneSecret : Auth Unit Memory.CapsMaps :=
  { getUser := fun id => some (if id = userId then some () else none)
    caps := {} }

/-- A good capability, and one for a user without a secret. -/
def goodThenMissing : List Import :=
  [⟨.write writeCapability, false⟩,
    ⟨.write { writeCapability with receiver := .ofByte 3 }, false⟩]

/-- The second pack is refused, and the first one is in the store. -/
theorem import_caps_keeps_first :
    ¬ ∀ (S κ : Type) (_ : CapsStorage.Store κ) (auth : Auth S κ) (imports : List Import),
      auth.AllOrNothing imports := by
  intro h
  have hkept := (h Unit Memory.CapsMaps _ oneSecret goodThenMissing).unchanged (by decide)
  have hcopies : copies (oneSecret.importCaps goodThenMissing).2.caps (.write writeCapability) =
      copies oneSecret.caps (.write writeCapability) := by rw [hkept]
  exact absurd hcopies (by decide)

end Sample

/-! ## Delegating -/

/-- The delegations of `meadowcap`; `none` is their error. -/
class Delegating where
  UserSecretKey : Type
  /-- `UserSecretKey::id`. -/
  id : UserSecretKey → UserId
  /-- `McCapability::delegate`. -/
  delegate : McCapability → UserSecretKey → UserId → Area → Option McCapability
  /-- `McSubspaceCapability::delegate`. -/
  delegateSubspace : SubspaceCapability → UserSecretKey → UserId → Option SubspaceCapability

/-- With the secret of its receiver a capability is delegated to the areas that
it includes. -/
class LawfulDelegating [Delegating] : Prop where
  delegate_isSome_iff : ∀ cap secret user area, Delegating.id secret = cap.receiver →
    ((Delegating.delegate cap secret user area).isSome = true ↔ cap.grantedArea.IncludesArea area)

/-- `RestrictArea`. -/
inductive RestrictArea where
  | none
  | restrict (area : Area)

/-- `RestrictArea::or_default`. -/
def RestrictArea.orDefault : RestrictArea → Area → Area
  | .none, default => default
  | .restrict area, _ => area

section Delegations

variable [Delegating]

open Delegating

/-- `ReadAuthorisation::delegate`. -/
def ReadAuthorisation.delegate (a : ReadAuthorisation) (userSecret : UserSecretKey)
    (newUser : UserId) (newArea : Area) : Option ReadAuthorisation := do
  let subspaceCap ← match a.subspaceCap with
    | some subspaceCap =>
        if newArea.subspace = .any ∧ newArea.path ≠ .empty then
          (delegateSubspace subspaceCap userSecret newUser).map some
        else some none
    | none => some none
  let readCap ← Delegating.delegate a.readCap userSecret newUser newArea
  some ⟨readCap, subspaceCap⟩

/-- `Auth::delegate_read_cap`. -/
def Auth.delegateReadCap {κ : Type} [CapsStorage.Store κ] (auth : Auth UserSecretKey κ)
    (source : CapSelector) (newUser : UserId) (restrictArea : RestrictArea) :
    Except AuthError CapabilityPack :=
  match getReadCap auth.caps source with
  | none => .error .noCapability
  | some a =>
      match auth.getUser a.readCap.receiver with
      | none => .error .other
      | some none => .error (.missingUserSecret a.readCap.receiver)
      | some (some userSecret) =>
          let area := restrictArea.orDefault a.readCap.grantedArea
          match Delegating.delegate a.readCap userSecret newUser area with
          | none => .error .delegationFailed
          | some newReadCap =>
              match a.subspaceCap with
              | none => .ok (.read ⟨newReadCap, none⟩)
              | some subspaceCap =>
                  if area.subspace = .any then
                    match delegateSubspace subspaceCap userSecret newUser with
                    | none => .error .subspaceCapDelegationFailed
                    | some newSubspaceCap => .ok (.read ⟨newReadCap, some newSubspaceCap⟩)
                  else .ok (.read ⟨newReadCap, none⟩)

/-- The authorisation has a subspace capability, and the new area is of all
subspaces at the empty path: only there the two decide differently. -/
def ReadAuthorisation.Disputed (a : ReadAuthorisation) (area : Area) : Prop :=
  a.subspaceCap.isSome = true ∧ area.subspace = .any ∧ area.path = .empty

instance (a : ReadAuthorisation) (area : Area) : Decidable (a.Disputed area) :=
  inferInstanceAs (Decidable (_ ∧ _ ∧ _))

variable {κ : Type} [CapsStorage.Store κ] {auth : Auth UserSecretKey κ} {source : CapSelector}
  {a : ReadAuthorisation} {secret : UserSecretKey}

/-- The two delegations agree where nothing is disputed, and where the read
capability itself is not delegated. -/
theorem delegateReadCap_eq_iff (hget : getReadCap auth.caps source = some a)
    (hsecret : auth.getUser a.readCap.receiver = some (some secret)) (newUser : UserId) (area : Area) :
    (auth.delegateReadCap source newUser (.restrict area)).toOption =
        (a.delegate secret newUser area).map .read ↔
      ¬ (a.Disputed area ∧ (Delegating.delegate a.readCap secret newUser area).isSome = true) := by
  simp only [Auth.delegateReadCap, ReadAuthorisation.delegate, ReadAuthorisation.Disputed,
    RestrictArea.orDefault, hget, hsecret]
  cases hread : Delegating.delegate a.readCap secret newUser area with
  | none => cases a.subspaceCap <;> simp [Except.toOption]
  | some readCap =>
      cases hsub : a.subspaceCap with
      | none => simp [Except.toOption]
      | some subspaceCap =>
          by_cases hany : area.subspace = .any
          · cases hnew : delegateSubspace subspaceCap secret newUser <;>
              by_cases hpath : area.path = .empty <;> simp [Except.toOption, hany, hpath, hnew]
          · simp [Except.toOption, hany]

/-- The two delegations of a read authorisation agree exactly when nothing is
disputed, or the new area is not included and both fail. -/
theorem read_delegations_agree_iff [LawfulDelegating] (auth : Auth UserSecretKey κ)
    (source : CapSelector) (a : ReadAuthorisation) (secret : UserSecretKey)
    (hget : getReadCap auth.caps source = some a)
    (hsecret : auth.getUser a.readCap.receiver = some (some secret))
    (hid : Delegating.id secret = a.readCap.receiver) (newUser : UserId) (area : Area) :
    (auth.delegateReadCap source newUser (.restrict area)).toOption =
        (a.delegate secret newUser area).map .read ↔
      ¬ (a.Disputed area ∧ a.readCap.grantedArea.IncludesArea area) := by
  rw [delegateReadCap_eq_iff hget hsecret, LawfulDelegating.delegate_isSome_iff _ _ _ _ hid]

end Delegations

namespace Sample

/-- A capability is delegated by whoever receives it, and the signature is a
zero. -/
@[reducible] def zeroSignatures : Delegating where
  UserSecretKey := UserId
  id secret := secret
  delegate cap secret user area :=
    if secret = cap.receiver ∧ cap.grantedArea.IncludesArea area then
      some { cap with
        receiver := user
        grantedArea := area
        delegations := cap.delegations ++ [⟨area, user, .ofByte 0⟩] }
    else none
  delegateSubspace cap secret user :=
    if secret = cap.receiver then some { cap with receiver := user } else none

attribute [local instance] zeroSignatures

instance : LawfulDelegating where
  delegate_isSome_iff := by
    intro cap secret user area hid
    have hreceiver : secret = cap.receiver := hid
    by_cases harea : cap.grantedArea.IncludesArea area
    · simp [Delegating.delegate, hreceiver, harea]
    · simp [Delegating.delegate, harea]

/-- What the owner of a namespace has to read it. -/
def ownedAuthorisation : ReadAuthorisation :=
  ⟨{ writeCapability with accessMode := .read }, some ⟨userId, namespaceId⟩⟩

/-- The owner with its read authorisation. -/
def owner : Auth UserId Memory.CapsMaps :=
  { getUser := fun id => some (some id)
    caps := Memory.CapsMaps.insertAll [.read ownedAuthorisation] }

/-- Any capability for the namespace. -/
def ownedSelector : CapSelector := ⟨namespaceId, .any, .widest⟩

/-- Delegating everything: one passes the subspace capability on, the other does
not. -/
theorem delegating_everything_differs :
    (owner.delegateReadCap ownedSelector (.ofByte 3) (.restrict .full)).toOption ≠
      (ownedAuthorisation.delegate userId (.ofByte 3) .full).map .read := by decide

/-- All subspaces below a path. -/
def belowPath : Area := ⟨.any, shortPath, .newOpen 0⟩

/-- Below a path both pass it on. -/
theorem delegating_path_agrees :
    (owner.delegateReadCap ownedSelector (.ofByte 3) (.restrict belowPath)).toOption =
      (ownedAuthorisation.delegate userId (.ofByte 3) belowPath).map .read := by
  have hundisputed : ¬ (ownedAuthorisation.Disputed belowPath ∧
      ownedAuthorisation.readCap.grantedArea.IncludesArea belowPath) := by decide
  exact (read_delegations_agree_iff owner ownedSelector ownedAuthorisation userId (by decide) rfl
    rfl (.ofByte 3) belowPath).mpr hundisputed

end Sample

end IrohWillow
