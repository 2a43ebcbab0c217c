import IrohWillow.Proto.Grouping

/-!
# Capabilities and authorised entries

A Meadowcap capability is seen through its accessors (`proto/meadowcap.rs`).
Which tokens authorise which entries, and which signatures a user key
verifies, is decided by `meadowcap` and `ed25519_dalek`: both are parameters,
in the class `Meadowcap`. An `AuthorisedEntry` carries the fact that its token
authorises it, so that no unauthorised value exists.
-/

namespace IrohWillow

/-- What a capability grants. -/
inductive AccessMode where
  | read
  | write
  deriving DecidableEq, Repr

/-- One link of a delegation chain. -/
structure Delegation where
  area : Area
  user : UserId
  signature : UserSignature
  deriving DecidableEq

/-- `McCapability`, as far as its accessors show it. -/
structure McCapability where
  accessMode : AccessMode
  receiver : UserId
  grantedNamespace : NamespaceId
  grantedArea : Area
  delegations : List Delegation
  deriving DecidableEq

/-- Read and write capabilities are one type, told apart by their access mode. -/
abbrev ReadCapability := McCapability

/-- The static part of an authorisation token. -/
abbrev StaticToken := McCapability

/-- The dynamic part of an authorisation token. -/
abbrev DynamicToken := UserSignature

/-- `McAuthorisationToken`. -/
structure AuthorisationToken where
  capability : McCapability
  signature : UserSignature
  deriving DecidableEq

/-- The checks of `meadowcap` and `ed25519_dalek`. -/
class Meadowcap where
  /-- `AuthorisationToken::is_authorised_write`. -/
  isAuthorisedWrite : Entry → AuthorisationToken → Bool
  /-- `UserId::into_public_key` succeeds. -/
  isPublicKey : UserId → Bool
  /-- `UserPublicKey::verify`. -/
  verify : UserId → Bytes 32 → UserSignature → Bool

/-- An entry together with a token that authorises it. -/
structure AuthorisedEntry [Meadowcap] where
  entry : Entry
  token : AuthorisationToken
  authorised : Meadowcap.isAuthorisedWrite entry token = true
  deriving DecidableEq

namespace AuthorisedEntry

variable [Meadowcap]

/-- `AuthorisedEntry::new`; `none` is `UnauthorisedWriteError`. -/
def new (entry : Entry) (token : AuthorisationToken) : Option AuthorisedEntry :=
  if h : Meadowcap.isAuthorisedWrite entry token = true then some ⟨entry, token, h⟩ else none

theorem new_eq_some {entry : Entry} {token : AuthorisationToken} {a : AuthorisedEntry}
    (h : new entry token = some a) : a.entry = entry ∧ a.token = token := by
  unfold new at h
  split at h
  · obtain rfl := Option.some.inj h
    exact ⟨rfl, rfl⟩
  · cases h

@[simp] theorem new_self (a : AuthorisedEntry) : new a.entry a.token = some a := by
  simp [new, a.authorised]

end AuthorisedEntry

/-! ## Sample values -/

namespace Sample

/-- Capabilities are checked, signatures are taken to be good. -/
@[reducible] def acceptingSignatures : Meadowcap where
  isAuthorisedWrite entry token :=
    decide (token.capability.accessMode = .write) &&
      decide (token.capability.grantedNamespace = entry.namespaceId) &&
      decide (token.capability.grantedArea.IncludesEntry entry)
  isPublicKey _ := true
  verify _ _ _ := true

def namespaceId : NamespaceId := .ofByte 1

def userId : UserId := .ofByte 2

/-- The full write capability of the sample user. -/
def writeCapability : McCapability :=
  { accessMode := .write
    receiver := userId
    grantedNamespace := namespaceId
    grantedArea := .full
    delegations := [] }

/-- The path with the given components, or the empty path when they do not
fit. -/
def pathOf (components : List (List Byte)) : Path :=
  if h : (∀ c ∈ components, c.length ≤ maxComponentLength) ∧
      components.length ≤ maxComponentCount ∧
      (components.map List.length).sum ≤ maxPathLength then
    ⟨components, h.1, h.2.1, h.2.2⟩
  else .empty

/-- An entry of the sample user. -/
def bareEntryAt (components : List (List Byte)) (timestamp : Timestamp) : Entry :=
  { namespaceId := namespaceId
    subspaceId := userId
    path := pathOf components
    timestamp := timestamp
    payloadLength := 0
    payloadDigest := .ofByte 0 }

/-- The same entry with a token of the sample user. -/
def entryAt (components : List (List Byte)) (timestamp : Timestamp) :
    @AuthorisedEntry acceptingSignatures :=
  @AuthorisedEntry.mk acceptingSignatures (bareEntryAt components timestamp)
    ⟨writeCapability, .ofByte 0⟩ (by
      have hpre : Path.empty.IsPrefixOf (pathOf components) := List.nil_prefix
      have htimes : (Range.newOpen (0 : Timestamp)).Includes timestamp := ⟨Fin.zero_le _, trivial⟩
      simp [Meadowcap.isAuthorisedWrite, writeCapability, bareEntryAt, Area.full,
        Area.IncludesEntry, AreaSubspace.Includes, hpre, htimes])

end Sample

end IrohWillow
