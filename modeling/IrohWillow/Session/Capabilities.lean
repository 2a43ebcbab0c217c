import IrohWillow.Session.Basic

/-!
# The access challenge and the capabilities of a session

`ChallengeState` of `session/challenge.rs` and `Capabilities` of
`session/capabilities.rs`. Each peer commits to a nonce, reveals it, and from
then on proves the possession of a key by signing a challenge that both nonces
determine. The hash of the commitment is a parameter.
-/

namespace IrohWillow

/-- `AccessChallengeBytes`. -/
abbrev AccessChallenge := Bytes 32

/-- `AccessChallenge::hash`. -/
class ChallengeHash where
  hash : AccessChallenge → Bytes 32

/-- `bitwise_xor`. -/
def bitwiseXor {n : Nat} (a b : Bytes n) : Bytes n :=
  ⟨List.zipWith (· ^^^ ·) a.toList b.toList, by simp [a.length_eq, b.length_eq]⟩

/-- `bitwise_complement`. -/
def bitwiseComplement {n : Nat} (a : Bytes n) : Bytes n :=
  ⟨a.toList.map (255 - ·), by simp [a.length_eq]⟩

/-- `bitwise_xor_complement`. -/
def bitwiseXorComplement {n : Nat} (a b : Bytes n) : Bytes n :=
  ⟨List.zipWith (fun x y => 255 - (x ^^^ y)) a.toList b.toList, by
    simp [a.length_eq, b.length_eq]⟩

/-- `McSubspaceCapability`, as far as its accessors show it. -/
structure SubspaceCapability where
  receiver : UserId
  grantedNamespace : NamespaceId
  deriving DecidableEq

/-- `SetupBindReadCapability`. -/
structure SetupBindReadCapability where
  capability : ReadCapability
  handle : Nat
  signature : UserSignature
  deriving DecidableEq

/-- `PaiReplySubspaceCapability`. -/
structure PaiReplySubspaceCapability where
  handle : Nat
  capability : SubspaceCapability
  signature : UserSignature
  deriving DecidableEq

/-- `SecretStorage`, of which a session uses `sign_user`; `none` is
`SecretStoreError`. -/
structure SecretStorage where
  signUser : UserId → Bytes 32 → Option UserSignature

/-- `ChallengeState`. -/
inductive ChallengeState where
  | committed (ourNonce : AccessChallenge) (receivedCommitment : Bytes 32)
  | revealed (ours theirs : AccessChallenge)
  deriving DecidableEq

namespace ChallengeState

/-- `ChallengeState::reveal`. -/
def reveal [ChallengeHash] (c : ChallengeState) (ourRole : Role) (theirNonce : AccessChallenge) :
    Except Error ChallengeState :=
  match c with
  | .committed ourNonce receivedCommitment =>
      if ChallengeHash.hash theirNonce ≠ receivedCommitment then .error .brokenCommittement
      else
        let ours := match ourRole with
          | .alfie => bitwiseXor ourNonce theirNonce
          | .betty => bitwiseXorComplement ourNonce theirNonce
        .ok (.revealed ours (bitwiseComplement ours))
  | .revealed _ _ => .error .invalidMessageInCurrentState

/-- `ChallengeState::is_revealed`. -/
def isRevealed : ChallengeState → Bool
  | .revealed _ _ => true
  | .committed _ _ => false

/-- `ChallengeState::signable`. -/
def signable : ChallengeState → Except Error AccessChallenge
  | .revealed ours _ => .ok ours
  | .committed _ _ => .error .invalidMessageInCurrentState

/-- `ChallengeState::verify`. -/
def verify [Meadowcap] (c : ChallengeState) (user : UserId) (signature : UserSignature) :
    Except Error Unit :=
  match c with
  | .revealed _ theirs =>
      if Meadowcap.verify user theirs signature then .ok () else .error .invalidSignature
  | .committed _ _ => .error .invalidMessageInCurrentState

end ChallengeState

/-- `Capabilities`. -/
structure Capabilities where
  challenge : ChallengeState
  ours : ResourceMap ReadCapability := {}
  theirs : ResourceMap ReadCapability := {}

namespace Capabilities

/-- `Capabilities::new`. -/
def new (ourNonce : AccessChallenge) (receivedCommitment : Bytes 32) : Capabilities :=
  { challenge := .committed ourNonce receivedCommitment }

/-- `Capabilities::find_ours`. -/
def findOurs (c : Capabilities) (capability : ReadCapability) : Option Nat :=
  c.ours.find capability

/-- `Capabilities::bind_ours`. -/
def bindOurs (c : Capabilities) (capability : ReadCapability) : (Nat × Bool) × Capabilities :=
  let (res, ours) := c.ours.bindIfNew capability
  (res, { c with ours := ours })

/-- `Capabilities::validate_and_bind_theirs`: the key of the receiver is a
public key and has signed the challenge. The access mode is not looked at. -/
def validateAndBindTheirs [Meadowcap] (c : Capabilities) (capability : ReadCapability)
    (signature : UserSignature) : Except Error Capabilities :=
  if Meadowcap.isPublicKey capability.receiver then
    match c.challenge.verify capability.receiver signature with
    | .error e => .error e
    | .ok () => .ok { c with theirs := (c.theirs.bind capability).2 }
  else .error .invalidSignature

/-- `Capabilities::sign_capability`. -/
def signCapability (c : Capabilities) (secrets : SecretStorage) (intersectionHandle : Nat)
    (capability : ReadCapability) : Except Error SetupBindReadCapability :=
  match c.challenge.signable with
  | .error e => .error e
  | .ok signable =>
      match secrets.signUser capability.receiver signable with
      | none => .error .keyStore
      | some signature => .ok ⟨capability, intersectionHandle, signature⟩

/-- `Capabilities::sign_subspace_capability`. -/
def signSubspaceCapability (c : Capabilities) (secrets : SecretStorage)
    (capability : SubspaceCapability) (handle : Nat) :
    Except Error PaiReplySubspaceCapability :=
  match c.challenge.signable with
  | .error e => .error e
  | .ok signable =>
      match secrets.signUser capability.receiver signable with
      | none => .error .keyStore
      | some signature => .ok ⟨handle, capability, signature⟩

/-- `Capabilities::verify_subspace_cap`. -/
def verifySubspaceCap [Meadowcap] (c : Capabilities) (capability : SubspaceCapability)
    (signature : UserSignature) : Except Error Unit :=
  if Meadowcap.isPublicKey capability.receiver then
    c.challenge.verify capability.receiver signature
  else .error .invalidSignature

/-- `Capabilities::received_commitment_reveal`. -/
def receivedCommitmentReveal [ChallengeHash] (c : Capabilities) (ourRole : Role)
    (theirNonce : AccessChallenge) : Except Error Capabilities :=
  match c.challenge.reveal ourRole theirNonce with
  | .error e => .error e
  | .ok challenge => .ok { c with challenge := challenge }

end Capabilities

/-! ## What a successful call leaves behind -/

namespace Capabilities

variable {c c' : Capabilities}

/-- A reveal happens once, and changes nothing else. -/
theorem receivedCommitmentReveal_ok [ChallengeHash] {role : Role} {nonce : AccessChallenge}
    (h : c.receivedCommitmentReveal role nonce = .ok c') :
    (∃ n commitment, c.challenge = .committed n commitment) ∧ c'.theirs = c.theirs := by
  unfold receivedCommitmentReveal at h
  cases hc : c.challenge with
  | committed n commitment =>
      rw [hc] at h
      refine ⟨⟨n, commitment, rfl⟩, ?_⟩
      split at h
      · cases h
      · obtain rfl := Except.ok.inj h
        rfl
  | revealed ours theirs => simp [hc, ChallengeState.reveal] at h

/-- A capability is bound only after the reveal, when its receiver's signature
of the challenge was verified. -/
theorem validateAndBindTheirs_ok [Meadowcap] {capability : ReadCapability}
    {signature : UserSignature} (h : c.validateAndBindTheirs capability signature = .ok c') :
    ∃ ours theirs, c.challenge = .revealed ours theirs ∧
      Meadowcap.verify capability.receiver theirs signature = true ∧
      c' = { c with theirs := (c.theirs.bind capability).2 } := by
  unfold validateAndBindTheirs at h
  split at h
  · cases hc : c.challenge with
    | committed n commitment => simp [hc, ChallengeState.verify] at h
    | revealed ours theirs =>
        refine ⟨ours, theirs, rfl, ?_⟩
        simp only [hc, ChallengeState.verify] at h
        split at h
        · rename_i hverify
          split at hverify
          · cases hverify
          · cases h
        · rename_i hverify
          split at hverify
          · rename_i hv
            exact ⟨hv, (Except.ok.inj h).symm⟩
          · cases hverify
  · cases h

/-! ## What can go wrong after the reveal -/

theorem verify_error_of_revealed [Meadowcap] {challenge : ChallengeState}
    (hrevealed : challenge.isRevealed = true) {user : UserId} {signature : UserSignature} {e : Error}
    (h : challenge.verify user signature = .error e) : e = .invalidSignature := by
  cases challenge with
  | committed n commitment => cases hrevealed
  | revealed ours theirs =>
      simp only [ChallengeState.verify] at h
      split at h
      · cases h
      · exact (Except.error.inj h).symm

theorem verifySubspaceCap_error [Meadowcap] (hrevealed : c.challenge.isRevealed = true)
    {capability : SubspaceCapability} {signature : UserSignature} {e : Error}
    (h : c.verifySubspaceCap capability signature = .error e) : e = .invalidSignature := by
  unfold verifySubspaceCap at h
  split at h
  · exact verify_error_of_revealed hrevealed h
  · exact (Except.error.inj h).symm

theorem validateAndBindTheirs_error [Meadowcap] (hrevealed : c.challenge.isRevealed = true)
    {capability : ReadCapability} {signature : UserSignature} {e : Error}
    (h : c.validateAndBindTheirs capability signature = .error e) : e = .invalidSignature := by
  unfold validateAndBindTheirs at h
  split at h
  · split at h
    · rename_i hverify
      obtain rfl := Except.error.inj h
      exact verify_error_of_revealed hrevealed hverify
    · cases h
  · exact (Except.error.inj h).symm

theorem signCapability_error (hrevealed : c.challenge.isRevealed = true) {secrets : SecretStorage}
    {handle : Nat} {capability : ReadCapability} {e : Error}
    (h : c.signCapability secrets handle capability = .error e) : e = .keyStore := by
  unfold signCapability at h
  cases hc : c.challenge with
  | committed n commitment => simp [hc, ChallengeState.isRevealed] at hrevealed
  | revealed ours theirs =>
      simp only [hc, ChallengeState.signable] at h
      split at h
      · exact (Except.error.inj h).symm
      · cases h

theorem signSubspaceCapability_error (hrevealed : c.challenge.isRevealed = true)
    {secrets : SecretStorage} {handle : Nat} {capability : SubspaceCapability} {e : Error}
    (h : c.signSubspaceCapability secrets capability handle = .error e) : e = .keyStore := by
  unfold signSubspaceCapability at h
  cases hc : c.challenge with
  | committed n commitment => simp [hc, ChallengeState.isRevealed] at hrevealed
  | revealed ours theirs =>
      simp only [hc, ChallengeState.signable] at h
      split at h
      · exact (Except.error.inj h).symm
      · cases h

theorem signCapability_ok {secrets : SecretStorage} {handle : Nat} {capability : ReadCapability}
    {message : SetupBindReadCapability}
    (h : c.signCapability secrets handle capability = .ok message) :
    ∃ signable, c.challenge.signable = .ok signable ∧
      secrets.signUser capability.receiver signable = some message.signature ∧
      message.capability = capability ∧ message.handle = handle := by
  unfold signCapability at h
  split at h
  · cases h
  · rename_i signable hsignable
    split at h
    · cases h
    · rename_i signature hsignature
      obtain rfl := Except.ok.inj h
      exact ⟨signable, hsignable, hsignature, rfl, rfl⟩

theorem signSubspaceCapability_ok {secrets : SecretStorage} {handle : Nat}
    {capability : SubspaceCapability} {message : PaiReplySubspaceCapability}
    (h : c.signSubspaceCapability secrets capability handle = .ok message) :
    ∃ signable, c.challenge.signable = .ok signable ∧
      secrets.signUser capability.receiver signable = some message.signature ∧
      message.capability = capability ∧ message.handle = handle := by
  unfold signSubspaceCapability at h
  split at h
  · cases h
  · rename_i signable hsignable
    split at h
    · cases h
    · rename_i signature hsignature
      obtain rfl := Except.ok.inj h
      exact ⟨signable, hsignable, hsignature, rfl, rfl⟩

end Capabilities

/-! ## Two honest sessions -/

/-- The challenge that a session signs when both nonces are known. -/
def sessionChallenge (nonce : Role → AccessChallenge) : Role → AccessChallenge
  | .alfie => bitwiseXor (nonce .alfie) (nonce .betty)
  | .betty => bitwiseXorComplement (nonce .betty) (nonce .alfie)

theorem bitwiseComplement_bitwiseXor {n : Nat} (a b : Bytes n) :
    bitwiseComplement (bitwiseXor a b) = bitwiseXorComplement b a := by
  refine Bytes.toList_injective n ?_
  show (List.zipWith (· ^^^ ·) a.toList b.toList).map (255 - ·) =
    List.zipWith (fun x y => 255 - (x ^^^ y)) b.toList a.toList
  rw [List.map_zipWith, List.zipWith_comm]
  simp only [Fin.xor_comm]

theorem bitwiseComplement_bitwiseXorComplement {n : Nat} (a b : Bytes n) :
    bitwiseComplement (bitwiseXorComplement b a) = bitwiseXor a b := by
  refine Bytes.toList_injective n ?_
  show (List.zipWith (fun x y => 255 - (x ^^^ y)) b.toList a.toList).map (255 - ·) =
    List.zipWith (· ^^^ ·) a.toList b.toList
  rw [List.map_zipWith, List.zipWith_comm]
  simp only [Fin.xor_comm, sub_sub_cancel]

/-- Each session verifies with the challenge that the other one signs. -/
theorem bitwiseComplement_sessionChallenge (nonce : Role → AccessChallenge) (p : Role) :
    bitwiseComplement (sessionChallenge nonce p) = sessionChallenge nonce p.other := by
  cases p with
  | alfie => exact bitwiseComplement_bitwiseXor _ _
  | betty => exact bitwiseComplement_bitwiseXorComplement _ _

/-- The key of the user is stored: messages can be signed, and the signatures
verify. -/
def SecretStorage.Holds [Meadowcap] (secrets : SecretStorage) (user : UserId) : Prop :=
  Meadowcap.isPublicKey user = true ∧ ∀ message, ∃ signature,
    secrets.signUser user message = some signature ∧
      Meadowcap.verify user message signature = true

namespace Capabilities

variable [Meadowcap] {c : Capabilities} {ours theirs : AccessChallenge} {secrets : SecretStorage}

/-- A read capability of a user whose key is stored can be signed. -/
theorem signCapability_of_holds (hc : c.challenge = .revealed ours theirs)
    {capability : ReadCapability} (h : secrets.Holds capability.receiver) (handle : Nat) :
    ∃ signature, c.signCapability secrets handle capability = .ok ⟨capability, handle, signature⟩ ∧
      Meadowcap.verify capability.receiver ours signature = true := by
  obtain ⟨signature, hsign, hverify⟩ := h.2 ours
  refine ⟨signature, ?_, hverify⟩
  simp [signCapability, hc, ChallengeState.signable, hsign]

/-- The other session accepts it. -/
theorem validateAndBindTheirs_of_verify (hc : c.challenge = .revealed ours theirs)
    {capability : ReadCapability} {signature : UserSignature}
    (hkey : Meadowcap.isPublicKey capability.receiver = true)
    (hverify : Meadowcap.verify capability.receiver theirs signature = true) :
    c.validateAndBindTheirs capability signature =
      .ok { c with theirs := (c.theirs.bind capability).2 } := by
  simp [validateAndBindTheirs, hc, hkey, ChallengeState.verify, hverify]

end Capabilities

end IrohWillow
