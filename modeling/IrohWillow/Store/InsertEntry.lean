import IrohWillow.Proto.Fingerprint
import IrohWillow.Session.StaticTokens
import IrohWillow.Store.Traits

/-!
# Local insertion

`Store::insert_entry` of `store.rs` up to its call of `ingest_entry`: the entry
is filled in from the form, a write capability is taken from the caller or
selected from the caps storage, and the token is made with the secret of the
user. What signs and what `meadowcap` makes of it are parameters, in the class
`Signing`; `LawfulSigning` is what the store relies on.

The entry is not checked against its token. Here an `AuthorisedEntry` is one
over the checks that accept everything, which is the bare pair that
`AuthorisedEntry::new_unchecked` builds; `Authorised` says that the checks of
`meadowcap` accept it.
-/

namespace IrohWillow

/-! ## Selecting a capability -/

/-- What `Area::includes_point` answers where it does not panic, which is before
the last timestamp. -/
def Area.IncludesPoint (a : Area) (p : Point) : Prop :=
  a.subspace.Includes p.x ∧ a.path.IsPrefixOf p.z ∧ a.times.Includes p.y

instance (a : Area) (p : Point) : Decidable (a.IncludesPoint p) :=
  inferInstanceAs (Decidable (_ ∧ _ ∧ _))

/-- `UserSelector`. -/
inductive UserSelector where
  | any
  | exact (user : UserId)
  deriving DecidableEq

/-- `UserSelector::includes`. -/
def UserSelector.includes : UserSelector → UserId → Bool
  | .any, _ => true
  | .exact u, user => decide (u = user)

/-- `AreaSelector`. -/
inductive AreaSelector where
  | widest
  | containsArea (area : Area)
  | containsPoint (point : Point)
  deriving DecidableEq

/-- `AreaSelector::is_covered_by`. -/
def AreaSelector.isCoveredBy : AreaSelector → Area → Bool
  | .widest, _ => true
  | .containsArea area, other => decide (other.IncludesArea area)
  | .containsPoint point, other => decide (other.IncludesPoint point)

/-- `CapSelector`. -/
structure CapSelector where
  namespaceId : NamespaceId
  receiver : UserSelector
  grantedArea : AreaSelector
  deriving DecidableEq

namespace CapSelector

/-- `CapSelector::is_covered_by`. -/
def isCoveredBy (s : CapSelector) (cap : McCapability) : Bool :=
  decide (s.namespaceId = cap.grantedNamespace) && s.receiver.includes cap.receiver &&
    s.grantedArea.isCoveredBy cap.grantedArea

/-- `CapSelector::for_entry`. -/
def forEntry (entry : Entry) (user : UserSelector) : CapSelector :=
  { namespaceId := entry.namespaceId
    receiver := user
    grantedArea := .containsPoint entry.point }

end CapSelector

/-- The capability grants access to the entry. -/
def McCapability.Grants (cap : McCapability) (entry : Entry) : Prop :=
  cap.grantedNamespace = entry.namespaceId ∧ cap.grantedArea.IncludesEntry entry

instance (cap : McCapability) (entry : Entry) : Decidable (cap.Grants entry) :=
  inferInstanceAs (Decidable (_ ∧ _))

/-- A capability selected for an entry of a user grants it to that user. -/
theorem CapSelector.grants_of_isCoveredBy {entry : Entry} {user : UserId} {cap : McCapability}
    (h : (forEntry entry (.exact user)).isCoveredBy cap = true) :
    cap.Grants entry ∧ cap.receiver = user := by
  unfold isCoveredBy at h
  obtain ⟨hleft, harea⟩ := Bool.and_eq_true_iff.mp h
  obtain ⟨hns, huser⟩ := Bool.and_eq_true_iff.mp hleft
  exact ⟨⟨(of_decide_eq_true hns).symm, of_decide_eq_true harea⟩,
    (of_decide_eq_true huser).symm⟩

/-- `CapsStorage::get_write_cap`: what it returns matches the selector. -/
class CapsStorage (κ : Type) where
  getWriteCap : κ → CapSelector → Option McCapability
  isCoveredBy : ∀ {caps s cap}, getWriteCap caps s = some cap → s.isCoveredBy cap = true

/-- `is_wider_than`. -/
def isWiderThan (a b : McCapability) : Bool :=
  decide (a.grantedArea.IncludesArea b.grantedArea) ||
    decide (a.grantedArea = b.grantedArea) && decide (a.delegations.length < b.delegations.length)

namespace Memory

/-- The write capabilities of `CapsStore`. -/
structure CapsStore where
  writeCaps : NamespaceId → List McCapability

/-- The better of two candidates. -/
def better (prev next : McCapability) : McCapability := if isWiderThan next prev then next else prev

/-- `CapsStore::get_write_cap`. -/
def CapsStore.getWriteCap (caps : CapsStore) (s : CapSelector) : Option McCapability :=
  match (caps.writeCaps s.namespaceId).filter s.isCoveredBy with
  | [] => none
  | first :: rest => some (rest.foldl better first)

theorem foldl_better_mem (first : McCapability) (rest : List McCapability) :
    rest.foldl better first ∈ first :: rest := by
  induction rest generalizing first with
  | nil => exact List.mem_cons_self
  | cons next rest ih =>
      rw [List.foldl_cons]
      rcases List.mem_cons.mp (ih (better first next)) with heq | hmem
      · rw [heq]
        unfold better
        split <;> simp
      · exact List.mem_cons_of_mem _ (List.mem_cons_of_mem _ hmem)

instance : CapsStorage CapsStore where
  getWriteCap := CapsStore.getWriteCap
  isCoveredBy := by
    intro caps s cap h
    unfold CapsStore.getWriteCap at h
    split at h
    · cases h
    · rename_i first rest hcandidates
      obtain rfl := Option.some.inj h
      have hmem := foldl_better_mem first rest
      rw [← hcandidates] at hmem
      exact (List.mem_filter.mp hmem).2

end Memory

namespace Persistent

/-- The rows of the table `write_caps`, in the order of their keys. -/
structure CapsTable where
  writeCaps : List (NamespaceId × McCapability)

/-- `list_write_caps` of a namespace: the range starts at the namespace and has
no end. -/
def CapsTable.listWriteCaps (caps : CapsTable) (ns : NamespaceId) : List McCapability :=
  (caps.writeCaps.filter fun row => decide (ns ≤ row.1)).map Prod.snd

/-- `get_write_cap`. -/
def CapsTable.getWriteCap (caps : CapsTable) (s : CapSelector) : Option McCapability :=
  (caps.listWriteCaps s.namespaceId).find? s.isCoveredBy

instance : CapsStorage CapsTable where
  getWriteCap := CapsTable.getWriteCap
  isCoveredBy := fun h => List.find?_some h

end Persistent

/-! ## Signing -/

/-- The checks of `meadowcap` and `ed25519_dalek` and the signing side of them. -/
class Signing where
  checks : Meadowcap
  UserSecretKey : Type
  /-- `UserSecretKey::id`. -/
  id : UserSecretKey → UserId
  /-- The signature of an entry. -/
  sign : UserSecretKey → Entry → UserSignature
  /-- The user has signed the entry. -/
  verifies : UserId → Entry → UserSignature → Bool
  /-- `McCapability::authorisation_token`; `none` is its error. -/
  authorisationToken : McCapability → Entry → UserSecretKey → Option AuthorisationToken

/-- What the store relies on. -/
class LawfulSigning [Signing] : Prop where
  /-- A token is made of a write capability with the secret of its receiver. -/
  authorisationToken_eq : ∀ cap entry secret, Signing.authorisationToken cap entry secret =
    if cap.accessMode = .write ∧ Signing.id secret = cap.receiver then
      some ⟨cap, Signing.sign secret entry⟩
    else none
  /-- A token authorises an entry that its capability grants and its receiver has signed. -/
  isAuthorisedWrite_iff : ∀ entry token, Signing.checks.isAuthorisedWrite entry token = true ↔
    token.capability.accessMode = .write ∧ token.capability.Grants entry ∧
      Signing.verifies token.capability.receiver entry token.signature = true
  /-- A signature verifies. -/
  verifies_sign : ∀ secret entry,
    Signing.verifies (Signing.id secret) entry (Signing.sign secret entry) = true

/-- The token of a capability authorises exactly what the capability grants. -/
theorem isAuthorisedWrite_of_authorisationToken [Signing] [LawfulSigning]
    {cap : McCapability} {entry : Entry} {secret : Signing.UserSecretKey}
    {token : AuthorisationToken}
    (h : Signing.authorisationToken cap entry secret = some token) :
    Signing.checks.isAuthorisedWrite entry token = true ↔ cap.Grants entry := by
  rw [LawfulSigning.authorisationToken_eq] at h
  split at h
  · rename_i hcap
    obtain ⟨hwrite, hreceiver⟩ := hcap
    obtain rfl := Option.some.inj h
    rw [LawfulSigning.isAuthorisedWrite_iff]
    constructor
    · exact fun hauth => hauth.2.1
    · intro hgrants
      refine ⟨hwrite, hgrants, ?_⟩
      rw [← hreceiver]
      exact LawfulSigning.verifies_sign secret entry
  · cases h

/-! ## The forms -/

/-- `SubspaceForm`. -/
inductive SubspaceForm where
  | user
  | exact (subspace : SubspaceId)
  deriving DecidableEq

/-- `TimestampForm`. -/
inductive TimestampForm where
  | now
  | exact (timestamp : Timestamp)
  deriving DecidableEq

/-- `EntryForm`. The payload is given by what `PayloadForm::submit` returns. -/
structure EntryForm where
  namespaceId : NamespaceId
  subspaceId : SubspaceForm
  path : Path
  timestamp : TimestampForm
  payload : Option (PayloadDigest × U64)
  deriving DecidableEq

/-- `EntryOrForm`. -/
inductive EntryOrForm where
  | entry (entry : Entry)
  | form (form : EntryForm)
  deriving DecidableEq

/-- `AuthForm`. -/
inductive AuthForm where
  | any (user : UserId)
  | exact (cap : McCapability)
  deriving DecidableEq

/-- `AuthForm::user_id`. -/
def AuthForm.userId : AuthForm → UserId
  | .any user => user
  | .exact cap => cap.receiver

/-- `Store::form_to_entry`, at the system time `now`. -/
def formToEntry (form : EntryForm) (user : UserId) (now : Timestamp) : Option Entry :=
  let timestamp := match form.timestamp with
    | .now => now
    | .exact timestamp => timestamp
  let subspaceId := match form.subspaceId with
    | .user => user
    | .exact subspace => subspace
  match form.payload with
  | none => none
  | some (payloadDigest, payloadLength) =>
      some ⟨form.namespaceId, subspaceId, form.path, timestamp, payloadLength, payloadDigest⟩

/-! ## Insertion -/

/-- Checks that accept everything. -/
@[reducible] def acceptAll : Meadowcap where
  isAuthorisedWrite _ _ := true
  isPublicKey _ := true
  verify _ _ _ := true

attribute [local instance] acceptAll

/-- `AuthorisedEntry::new_unchecked`. -/
def newUnchecked (entry : Entry) (token : AuthorisationToken) : AuthorisedEntry :=
  ⟨entry, token, rfl⟩

@[simp] theorem newUnchecked_entry (entry : Entry) (token : AuthorisationToken) :
    (newUnchecked entry token).entry = entry := rfl

@[simp] theorem newUnchecked_token (entry : Entry) (token : AuthorisationToken) :
    (newUnchecked entry token).token = token := rfl

/-- Forget that an entry was checked. -/
def forgetCheck [Signing] (a : @AuthorisedEntry Signing.checks) : AuthorisedEntry :=
  newUnchecked (@AuthorisedEntry.entry Signing.checks a) (@AuthorisedEntry.token Signing.checks a)

/-- Its token authorises the entry. -/
def Authorised [Signing] (a : AuthorisedEntry) : Prop :=
  Signing.checks.isAuthorisedWrite a.entry a.token = true

theorem authorised_forgetCheck [Signing] (a : @AuthorisedEntry Signing.checks) :
    Authorised (forgetCheck a) := @AuthorisedEntry.authorised Signing.checks a

/-- Why `insert_entry` fails before it ingests. -/
inductive InsertError where
  /-- The payload could not be submitted. -/
  | payload
  /-- `no write capability available` -/
  | noWriteCapability
  /-- `Missing user keypair` -/
  | missingUserKeypair
  /-- The error of `authorisation_token`. -/
  | authorisationToken
  deriving DecidableEq, Repr

section Insert

variable [Signing] (κ : Type)

/-- A call of `insert_entry`, with what it finds: the secrets and capabilities
of the moment and the system time. -/
structure InsertCall where
  secrets : UserId → Option Signing.UserSecretKey
  caps : κ
  now : Timestamp
  entry : EntryOrForm
  auth : AuthForm

variable {κ}

/-- The entry to insert. -/
def InsertCall.toEntry (call : InsertCall κ) : Except InsertError Entry :=
  match call.entry with
  | .entry entry => .ok entry
  | .form form =>
      match formToEntry form call.auth.userId call.now with
      | none => .error .payload
      | some entry => .ok entry

variable [CapsStorage κ]

/-- The capability to write it with. -/
def InsertCall.capability (call : InsertCall κ) (entry : Entry) : Except InsertError McCapability :=
  match call.auth with
  | .exact cap => .ok cap
  | .any user =>
      match CapsStorage.getWriteCap call.caps (.forEntry entry (.exact user)) with
      | none => .error .noWriteCapability
      | some cap => .ok cap

/-- `Store::insert_entry` up to `ingest_entry`. -/
def InsertCall.authorisedEntry (call : InsertCall κ) : Except InsertError AuthorisedEntry := do
  let entry ← call.toEntry
  let capability ← call.capability entry
  match call.secrets call.auth.userId with
  | none => .error .missingUserKeypair
  | some secretKey =>
      match Signing.authorisationToken capability entry secretKey with
      | none => .error .authorisationToken
      | some token => .ok (newUnchecked entry token)

/-- What `insert_entry` hands to `ingest_entry`: the entry of the call, signed
under its capability. -/
theorem InsertCall.authorisedEntry_eq_ok {call : InsertCall κ} {a : AuthorisedEntry}
    (h : call.authorisedEntry = .ok a) :
    call.toEntry = .ok a.entry ∧ ∃ cap secret, call.capability a.entry = .ok cap ∧
      call.secrets call.auth.userId = some secret ∧
      Signing.authorisationToken cap a.entry secret = some a.token := by
  unfold authorisedEntry at h
  cases hentry : call.toEntry with
  | error e => simp [hentry, bind, Except.bind] at h
  | ok entry =>
      cases hcap : call.capability entry with
      | error e => simp [hentry, hcap, bind, Except.bind] at h
      | ok cap =>
          simp only [hentry, hcap, bind, Except.bind] at h
          split at h
          · cases h
          · rename_i secret hsecret
            split at h
            · cases h
            · rename_i token htoken
              obtain rfl := Except.ok.inj h
              exact ⟨rfl, cap, secret, hcap, hsecret, htoken⟩

variable [LawfulSigning]

/-- A selected capability authorises the entry. -/
theorem InsertCall.authorised_of_any {call : InsertCall κ} {a : AuthorisedEntry} {user : UserId}
    (h : call.authorisedEntry = .ok a) (hauth : call.auth = .any user) : Authorised a := by
  obtain ⟨-, cap, secret, hcap, -, htoken⟩ := authorisedEntry_eq_ok h
  unfold Authorised
  rw [isAuthorisedWrite_of_authorisationToken htoken]
  unfold capability at hcap
  rw [hauth] at hcap
  dsimp only at hcap
  split at hcap
  · cases hcap
  · rename_i cap' hget
    obtain rfl := Except.ok.inj hcap
    exact (CapSelector.grants_of_isCoveredBy (CapsStorage.isCoveredBy hget)).1

/-- A capability of the caller authorises the entry if it grants it. -/
theorem InsertCall.authorised_iff_of_exact {call : InsertCall κ} {a : AuthorisedEntry}
    {cap : McCapability} (h : call.authorisedEntry = .ok a) (hauth : call.auth = .exact cap) :
    Authorised a ↔ cap.Grants a.entry := by
  obtain ⟨-, cap', secret, hcap, -, htoken⟩ := authorisedEntry_eq_ok h
  have heq : cap = cap' := by
    unfold capability at hcap
    rw [hauth] at hcap
    exact Except.ok.inj hcap
  subst heq
  exact isAuthorisedWrite_of_authorisationToken htoken

end Insert

end IrohWillow
