import IrohWillow.Session.Framing

/-!
# A reconciler with an honest peer

What one message of an honest peer does to a reconciler whose storage never
fails: the message is processed without an error, the reconciler sends one
answer or nothing (`Reacts`), and completes its target exactly when all its
ranges are covered and no block of entries is open (`Handled`).
-/

namespace IrohWillow.Reconciler

open Transition

theorem beginReceive_of_mem {t : Target} {covers : Option Nat}
    (h : ∀ n, covers = some n → n ∈ t.ourUncoveredRanges) :
    ∃ t₁, t.beginReceive covers = .ok t₁ := by
  unfold Target.beginReceive
  cases covers with
  | none => exact ⟨_, rfl⟩
  | some n => exact ⟨_, if_pos (h n rfl)⟩

section Model

variable {σ : Type} [Meadowcap]

theorem getEventually_of_lookup {r : Reconciler σ} {id : TargetId} {t : Target}
    (h : r.targets.lookup id = some t) : r.getEventually id = some (.ok t) := by
  unfold getEventually
  rw [h]

/-- Completing a target that exists. -/
theorem completeTarget_ok {r : Reconciler σ} {id : TargetId} {t : Target}
    (h : r.targets.lookup id = some t) :
    ∃ outputs, r.completeTarget id =
        (.ok (), { r with
          targets := r.targets.erase id
          shared := { r.shared with outputs := outputs } }) ∧
      .reconciledArea t.intersection.namespaceId t.intersection.intersection ∈ outputs := by
  unfold completeTarget
  rw [h]
  refine ⟨_, rfl, ?_⟩
  split <;> simp

variable [Storage σ]

/-! ## Sending does not fail -/

section NeverFails

variable (hlaw : Storage.NeverFails σ)
include hlaw

theorem sendPayload_ok (sh : Shared σ) (target : AoiIntersection) (entry : Entry) :
    (Target.sendPayload sh target entry).1 = .ok () := by
  unfold Target.sendPayload
  obtain ⟨chunks, hchunks⟩ := hlaw.payload sh.store entry.payloadDigest
  rw [hchunks]
  split
  · cases chunks <;> rfl
  · rfl

theorem sendEntries_ok (target : AoiIntersection) (as : List AuthorisedEntry) (sh : Shared σ) :
    (Target.sendEntries target (as.map .ok) sh).1 = .ok () := by
  induction as generalizing sh with
  | nil => rfl
  | cons a rest ih =>
      simp only [List.map_cons, Target.sendEntries]
      have hpaid := sendPayload_ok hlaw ((sh.bindAndSendOurs a.token.capability).2.send target
        (.sendEntry (entryMessage sh a)) none) target a.entry
      simp only [entryMessage] at hpaid
      split
      · rename_i heq
        rw [heq] at hpaid
        cases hpaid
      · exact ih _

theorem announceAndSendEntries_ok (sh : Shared σ) (t : Target) (range : Range3d)
    (wantResponse : Bool) (covers : Option Nat) (isEmpty : Bool) :
    (t.announceAndSendEntries sh range wantResponse covers isEmpty).1 =
      .ok (t.announced wantResponse) := by
  rw [announceAndSendEntries_eq]
  obtain ⟨as, has⟩ : ∃ as : List AuthorisedEntry, (if isEmpty then .ok [] else
      Storage.getAuthorisedEntries sh.store t.intersection.namespaceId range) =
        Except.ok (ε := Error) (as.map .ok) := by
    cases isEmpty with
    | true => exact ⟨[], rfl⟩
    | false => exact hlaw.entries sh.store t.intersection.namespaceId range
  rw [has]
  dsimp only
  have hsent := sendEntries_ok hlaw t.intersection as
  split
  · rename_i heq
    have := congrArg Prod.fst heq
    rw [hsent] at this
    cases this
  · rfl

theorem answerParts_ok (rangeCount : Nat) (parts : List (Range3d × SplitAction))
    (sh : Shared σ) (t : Target) :
    ∃ t', (Target.answerParts rangeCount (parts.map .ok) sh t).1 = .ok t' := by
  induction parts generalizing sh t with
  | nil => exact ⟨t, rfl⟩
  | cons part rest ih =>
      obtain ⟨range, action⟩ := part
      cases action with
      | sendFingerprint fingerprint => exact ih _ _
      | sendEntries count =>
          simp only [List.map_cons, Target.answerParts]
          split
          · rename_i heq
            have hok := announceAndSendEntries_ok hlaw sh t range true
              (if (rest.map (Except.ok (ε := Error))).isEmpty then some rangeCount else none)
              (count == 0)
            rw [heq] at hok
            cases hok
          · exact ih _ _

theorem answerFingerprint_ok (sh : Shared σ) (t : Target)
    (message : ReconciliationSendFingerprint) (rangeCount : Nat) :
    ∃ t', (t.answerFingerprint sh message rangeCount).1 = .ok t' := by
  unfold Target.answerFingerprint
  obtain ⟨ours, hours⟩ := hlaw.fingerprint sh.store t.intersection.namespaceId message.range
  rw [hours]
  dsimp only
  split
  · exact ⟨_, announceAndSendEntries_ok hlaw _ _ _ _ _ _⟩
  · split
    · exact ⟨_, announceAndSendEntries_ok hlaw _ _ _ _ _ _⟩
    · obtain ⟨parts, -, hparts⟩ := hlaw.split sh.store t.intersection.namespaceId message.range
      rw [hparts]
      exact answerParts_ok hlaw _ _ _ _

end NeverFails

/-! ## Who a message is for -/

/-- The message is for the target, and has a number exactly when it opens a
range. -/
def Sent.Addressed (id : TargetId) (s : Sent) : Prop :=
  match s.message with
  | .sendFingerprint m => m.handles = id ∧ s.opened.isSome = true
  | .announceEntries m => m.handles = id ∧ s.opened.isSome = m.wantResponse
  | .sendEntry _ => s.opened = none
  | .sendPayload _ => s.opened = none
  | .terminatePayload _ => s.opened = none

variable {store : σ} {t t' : Target} {range : Range3d} {wantResponse isEmpty : Bool}
  {cover : Option Nat} {rangeCount : Nat} {new : List Sent}

theorem EntryBlock.addressed {target : AoiIntersection} {entries : List AuthorisedEntry}
    {body : List Sent} (h : EntryBlock store target entries body) (id : TargetId) :
    ∀ s ∈ body, s.Addressed id := by
  induction h with
  | nil => simp
  | cons handle hchunks _ ih =>
      intro s hs
      simp only [List.mem_cons, List.mem_append, List.mem_map] at hs
      rcases hs with rfl | ⟨chunk, -, rfl⟩ | rfl | hs
      · rfl
      · rfl
      · rfl
      · exact ih s hs

theorem Announces.addressed (h : Announces store t range wantResponse cover isEmpty new) :
    ∀ s ∈ new, s.Addressed t.intersection.peerId := by
  cases h with
  | intro entries body hblock hentries =>
      intro s hs
      rcases List.mem_cons.mp hs with rfl | hs
      · exact ⟨rfl, by cases wantResponse <;> rfl⟩
      · exact hblock.addressed _ s hs

theorem AnswersParts.addressed {parts : List (Range3d × SplitAction)}
    (h : AnswersParts store rangeCount parts t t' new) :
    ∀ s ∈ new, s.Addressed t.intersection.peerId := by
  induction h with
  | nil => simp
  | fingerprint _ ih =>
      intro s hs
      rcases List.mem_cons.mp hs with rfl | hs
      · exact ⟨rfl, rfl⟩
      · exact ih s hs
  | entries hpiece _ ih =>
      intro s hs
      rcases List.mem_append.mp hs with hs | hs
      · exact hpiece.addressed s hs
      · exact ih s hs

theorem Answers.addressed {message : ReconciliationSendFingerprint} {ours : Fingerprint}
    (h : Answers store t message rangeCount ours t' new) :
    ∀ s ∈ new, s.Addressed t.intersection.peerId := by
  cases h with
  | matching _ hnew => exact hnew.addressed
  | empty _ _ hnew => exact hnew.addressed
  | split _ _ hnew => exact hnew.addressed

/-! ## One message -/

/-- The state of the entries is the one that the phase says. -/
def Phase.Matches (id : TargetId) : Phase → Option EntryStateInner → Prop
  | .fresh, state => state = none
  | .idle _, state => state = none
  | .announced _, state => state = some { target := id }
  | .entry _ e chunks, state => ∃ inner : CurrentPayloadInner,
      state = some { target := id, currentPayload := ⟨some inner⟩ } ∧
        inner.payloadDigest = e.payloadDigest ∧ inner.totalLength = e.payloadLength ∧
        inner.writer = if chunks = [] then none else some chunks

/-- What a target and its store make of a message, and what they send. -/
inductive Reacts (store : σ) (t : Target) :
    ReconciliationMessage → Target → List Sent → σ → Prop
  | fingerprint {m : ReconciliationSendFingerprint} {t₁ t' : Target} {ours : Fingerprint}
      {new : List Sent} (hbegin : t.beginReceive m.covers = .ok t₁)
      (hours : Storage.fingerprint store t.intersection.namespaceId m.range = .ok ours)
      (hnew : Answers store t₁.nextRangeCountTheirs.2 m t₁.theirRangeCounter ours t' new) :
      Reacts store t (.sendFingerprint m) t' new store
  | respond {m : ReconciliationAnnounceEntries} {t₁ : Target} {new : List Sent}
      (hbegin : t.beginReceive m.covers = .ok t₁) (hwant : m.wantResponse = true)
      (hnew : Announces store t₁.nextRangeCountTheirs.2 m.range false
        (some t₁.theirRangeCounter) false new) :
      Reacts store t (.announceEntries m) t₁.nextRangeCountTheirs.2 new store
  | announce {m : ReconciliationAnnounceEntries} {t₁ : Target}
      (hbegin : t.beginReceive m.covers = .ok t₁) (hwant : m.wantResponse = false) :
      Reacts store t (.announceEntries m) t₁ [] store
  | entry {m : ReconciliationSendEntry} {a : AuthorisedEntry} {origin : EntryOrigin}
      (ha : a.entry = m.entry) :
      Reacts store t (.sendEntry m) t [] (Storage.ingestEntry store a origin).2
  | payload {bytes : Chunk} : Reacts store t (.sendPayload bytes) t [] store
  | terminate {isFinal : Bool} {store' : σ}
      (hstore : store' = store ∨ ∃ digest length chunks,
        store' = (Storage.importChunks store digest length chunks).2) :
      Reacts store t (.terminatePayload isFinal) t [] store'

theorem Reacts.store_cases {store store' : σ} {message : ReconciliationMessage} {t t' : Target}
    {new : List Sent} (h : Reacts store t message t' new store') :
    store' = store ∨ (∃ a origin, store' = (Storage.ingestEntry store a origin).2) ∨
      ∃ digest length chunks, store' = (Storage.importChunks store digest length chunks).2 := by
  cases h with
  | fingerprint _ _ _ => exact Or.inl rfl
  | respond _ _ _ => exact Or.inl rfl
  | announce _ _ => exact Or.inl rfl
  | entry _ => exact Or.inr (Or.inl ⟨_, _, rfl⟩)
  | payload => exact Or.inl rfl
  | terminate hstore => exact hstore.imp_right Or.inr

/-- A reconciler has processed a message for a target. -/
structure Handled (id : TargetId) (r r' : Reconciler σ) (message : ReconciliationMessage)
    (t t' : Target) (φ' : Phase) (new : List Sent) : Prop where
  reacts : Reacts r.shared.store t message t' new r'.shared.store
  sent : r'.shared.sent = r.shared.sent ++ new
  sentTokens : r.shared.sentTokens <+: r'.shared.sentTokens
  mirrored : r.shared.Mirrored → r'.shared.Mirrored
  redeemable : r.shared.Mirrored → ∀ s ∈ new, s.Redeemable r'.shared.sentTokens
  theirs : r'.shared.staticTokens.theirs = r.shared.staticTokens.theirs
  ourRole : r'.shared.ourRole = r.shared.ourRole
  inbox : r'.inbox = r.inbox
  entryState : φ'.Matches id r'.entryState
  /-- The target is completed when nothing is left to do, and kept otherwise. -/
  target : if t'.isComplete && r'.entryState.isNone then
      r'.targets.lookup id = none ∧
        .reconciledArea t'.intersection.namespaceId t'.intersection.intersection ∈
          r'.shared.outputs
    else r'.targets.lookup id = some t' ∧ r'.shared.outputs = r.shared.outputs

/-- The end of a control message. -/
theorem finishTarget_handled {id : TargetId} {r : Reconciler σ} {t t' : Target}
    {message : ReconciliationMessage} {new : List Sent} {φ' : Phase} {P : Sent → Prop}
    {state : Option EntryStateInner} {sh : Shared σ}
    {answered : List (AoiIntersection × Range3d)}
    (hreacts : Reacts r.shared.store t message t' new r.shared.store)
    (hemits : Emits P { r.shared with answered := answered } sh new)
    (hstate : φ'.Matches id state) :
    ∃ r', ({ r with entryState := state } : Reconciler σ).finishTarget id (.ok t', sh) =
      (.ok (), r') ∧ Handled id r r' message t t' φ' new := by
  have hkeep := hemits.keeps
  unfold finishTarget
  dsimp only
  cases hdone : (t'.isComplete && state.isNone) with
  | false =>
      rw [if_neg (by simp)]
      refine ⟨_, rfl, ?_, hemits.sent, hemits.sentTokens, hemits.mirrored, hemits.redeemable,
        hkeep.theirs, hkeep.ourRole, rfl, hstate, ?_⟩
      · exact hkeep.store.symm ▸ hreacts
      · rw [if_neg (by simp [hdone])]
        exact ⟨AList.lookup_insert _, hkeep.outputs⟩
  | true =>
      rw [if_pos rfl]
      obtain ⟨outputs, heq, hmem⟩ := completeTarget_ok
        (r := { r with shared := sh, targets := r.targets.insert id t', entryState := state })
        (AList.lookup_insert _)
      refine ⟨_, heq, ?_, hemits.sent, hemits.sentTokens, hemits.mirrored, hemits.redeemable,
        hkeep.theirs, hkeep.ourRole, rfl, hstate, ?_⟩
      · exact hkeep.store.symm ▸ hreacts
      · rw [if_pos hdone]
        exact ⟨AList.lookup_erase _ _, hmem⟩

/-- A message that changes the state of the entries and the store only. -/
theorem Handled.ofEntryState {id : TargetId} {r : Reconciler σ} {t : Target}
    {message : ReconciliationMessage} {φ' : Phase} {state : EntryStateInner} {store : σ}
    {ingested : List (AuthorisedEntry × EntryOrigin)}
    (hlookup : r.targets.lookup id = some t)
    (hreacts : Reacts r.shared.store t message t [] store) (hstate : φ'.Matches id (some state)) :
    Handled id r { r with
      entryState := some state
      shared := { r.shared with store := store, ingested := ingested } } message t t φ' [] where
  reacts := hreacts
  sent := by simp
  sentTokens := List.prefix_refl _
  mirrored h := h
  redeemable _ := by simp
  theirs := rfl
  ourRole := rfl
  inbox := rfl
  entryState := hstate
  target := by
    rw [if_neg (by simp)]
    exact ⟨hlookup, rfl⟩

section Messages

variable (hlaw : Storage.NeverFails σ) {r : Reconciler σ} {t : Target}
include hlaw

/-- The fingerprint of a range. -/
theorem sendFingerprint_handled {m : ReconciliationSendFingerprint} (covered : Bool)
    (hlookup : r.targets.lookup m.handles = some t) (hidle : r.entryState = none)
    (hcovers : ∀ n, m.covers = some n → n ∈ t.ourUncoveredRanges) :
    ∃ r' t' new, r.receivedMessage (.sendFingerprint m) = some (.ok (), r') ∧
      Handled m.handles r r' (.sendFingerprint m) t t' (.idle covered) new := by
  obtain ⟨t₁, hbegin⟩ := beginReceive_of_mem hcovers
  have hi : t₁.intersection = t.intersection := by rw [(beginReceive_ok hbegin).1]
  have hrecv : t.receivedSendFingerprint r.shared m =
      Target.answerFingerprint r.shared t₁.nextRangeCountTheirs.2 m t₁.theirRangeCounter := by
    simp [Target.receivedSendFingerprint, hbegin, Target.nextRangeCountTheirs]
  have hmessage : r.receivedMessage (.sendFingerprint m) =
      some (r.finishTarget m.handles (t.receivedSendFingerprint r.shared m)) := by
    simp [receivedMessage, getEventually_of_lookup hlookup]
  obtain ⟨t', hok⟩ := answerFingerprint_ok hlaw r.shared t₁.nextRangeCountTheirs.2 m
    t₁.theirRangeCounter
  rcases answerFingerprint_spec r.shared t₁.nextRangeCountTheirs.2 m t₁.theirRangeCounter with
    ⟨e, heq⟩ | ⟨ours, new, hours, hemits, hnew⟩
  · rw [heq] at hok
    cases hok
  · have hreacts : Reacts r.shared.store t (.sendFingerprint m) t' new r.shared.store :=
      .fingerprint hbegin (hi ▸ hours) (hnew t' hok)
    have hpair : t.receivedSendFingerprint r.shared m =
        (.ok t', (t.receivedSendFingerprint r.shared m).2) := by
      rw [← hok, ← hrecv]
    rw [← hrecv] at hemits
    have hfinish : ∃ r', r.finishTarget m.handles
        (.ok t', (t.receivedSendFingerprint r.shared m).2) = (.ok (), r') ∧
        Handled m.handles r r' (.sendFingerprint m) t t' (.idle covered) new :=
      finishTarget_handled hreacts hemits hidle
    obtain ⟨r', heq, hhandled⟩ := hfinish
    exact ⟨r', t', new, by rw [hmessage, hpair, heq], hhandled⟩

/-- The announcement of a range; it opens a block unless it is empty. -/
theorem announceEntries_handled {m : ReconciliationAnnounceEntries} {φ' : Phase}
    (hlookup : r.targets.lookup m.handles = some t) (hidle : r.entryState = none)
    (hcovers : ∀ n, m.covers = some n → n ∈ t.ourUncoveredRanges)
    (hφ : φ'.Matches m.handles (if m.isEmpty then none else some { target := m.handles })) :
    ∃ r' t' new, r.receivedMessage (.announceEntries m) = some (.ok (), r') ∧
      Handled m.handles r r' (.announceEntries m) t t' φ' new := by
  obtain ⟨t₁, hbegin⟩ := beginReceive_of_mem hcovers
  -- no block is open, so the announcement is accepted
  have hstate : r.entryStateAnnounce m.handles m.isEmpty = .ok { r with
      entryState := if m.isEmpty then none else some { target := m.handles } } := by
    unfold entryStateAnnounce
    rw [hidle]
    cases m.isEmpty with
    | true => simp [← hidle]
    | false => rfl
  set r₁ : Reconciler σ :=
    { r with entryState := if m.isEmpty then none else some { target := m.handles } } with hr₁
  have hlookup₁ : r₁.targets.lookup m.handles = some t := hlookup
  -- the target is known, so the message does not wait
  have hmessage : r.receivedMessage (.announceEntries m) =
      some (r₁.finishTarget m.handles (t.receivedAnnounceEntries r.shared m)) := by
    simp only [receivedMessage, hstate]
    rw [getEventually_of_lookup hlookup₁]
    rfl
  cases hwant : m.wantResponse with
  | false =>
      have hrecv : t.receivedAnnounceEntries r.shared m = (.ok t₁, r.shared) := by
        simp [Target.receivedAnnounceEntries, hbegin, hwant]
      have hfinish : ∃ r', r₁.finishTarget m.handles (.ok t₁, r.shared) = (.ok (), r') ∧
          Handled m.handles r r' (.announceEntries m) t t₁ φ' [] :=
        finishTarget_handled (P := fun _ => True) (.announce hbegin hwant) (.refl r.shared) hφ
      obtain ⟨r', heq, hhandled⟩ := hfinish
      exact ⟨r', t₁, [], by rw [hmessage, hrecv, heq], hhandled⟩
  | true =>
      obtain ⟨new, hemits, hnew⟩ := announceAndSendEntries_spec r.shared
        t₁.nextRangeCountTheirs.2 m.range false (some t₁.theirRangeCounter) false
      have hok := announceAndSendEntries_ok hlaw r.shared t₁.nextRangeCountTheirs.2 m.range false
        (some t₁.theirRangeCounter) false
      have hrecv : t.receivedAnnounceEntries r.shared m =
          (.ok t₁.nextRangeCountTheirs.2, (Target.announceAndSendEntries r.shared
            t₁.nextRangeCountTheirs.2 m.range false (some t₁.theirRangeCounter) false).2) := by
        have heq : t.receivedAnnounceEntries r.shared m = Target.announceAndSendEntries r.shared
            t₁.nextRangeCountTheirs.2 m.range false (some t₁.theirRangeCounter) false := by
          simp [Target.receivedAnnounceEntries, hbegin, hwant, Target.nextRangeCountTheirs]
        rw [heq]
        exact Prod.ext hok rfl
      have hfinish : ∃ r', r₁.finishTarget m.handles
          (.ok t₁.nextRangeCountTheirs.2, (Target.announceAndSendEntries r.shared
            t₁.nextRangeCountTheirs.2 m.range false (some t₁.theirRangeCounter) false).2) =
            (.ok (), r') ∧
          Handled m.handles r r' (.announceEntries m) t t₁.nextRangeCountTheirs.2 φ' new :=
        finishTarget_handled (.respond hbegin hwant (hnew _ hok).2) hemits hφ
      obtain ⟨r', heq, hhandled⟩ := hfinish
      exact ⟨r', _, new, by rw [hmessage, hrecv, heq], hhandled⟩

/-- An entry inside a block. -/
theorem sendEntry_handled {id : TargetId} {m : ReconciliationSendEntry} {covered : Bool}
    {a : AuthorisedEntry} (hlookup : r.targets.lookup id = some t)
    (hstate : r.entryState = some { target := id })
    (ha : r.shared.staticTokens.authoriseEntryEventually m.entry m.staticTokenHandle
      m.dynamicToken = .ready (some a)) :
    ∃ r', r.receivedMessage (.sendEntry m) = some (.ok (), r') ∧
      Handled id r r' (.sendEntry m) t t (.entry covered m.entry []) [] := by
  obtain ⟨-, hentry, -⟩ := StaticTokens.authoriseEntryEventually_ready ha
  have hmessage : r.receivedMessage (.sendEntry m) = some (r.receivedSendEntry m a) := by
    simp only [receivedMessage, ha]
  obtain ⟨inserted, hingest⟩ := hlaw.ingest r.shared.store a (.remote r.shared.sessionId)
  have hstored : Storage.ingestEntry r.shared.store a (.remote r.shared.sessionId) =
      (.ok inserted, (Storage.ingestEntry r.shared.store a (.remote r.shared.sessionId)).2) :=
    Prod.ext hingest rfl
  have hset : CurrentPayload.set {} a.entry.payloadDigest a.entry.payloadLength
      (some m.available) none = .ok ⟨some
        { payloadDigest := a.entry.payloadDigest
          expectedLength := m.available.val
          receivedLength := 0
          totalLength := a.entry.payloadLength
          offset := 0
          writer := none }⟩ := by
    simp [CurrentPayload.set]
  rw [hmessage]
  unfold receivedSendEntry
  rw [hstate]
  simp only [CurrentPayload.ensureNone, CurrentPayload.isActive, hset]
  rw [hstored]
  refine ⟨_, rfl, .ofEntryState hlookup (.entry hentry) ⟨_, rfl, ?_, ?_, rfl⟩⟩
  · rw [← hentry]
  · rw [← hentry]

omit hlaw in
/-- A chunk of a payload. -/
theorem sendPayload_handled {id : TargetId} {bytes : Chunk} {covered : Bool} {e : Entry}
    {chunks : List Chunk} (hlookup : r.targets.lookup id = some t)
    (hstate : (Phase.entry covered e chunks).Matches id r.entryState) :
    ∃ r', r.receivedMessage (.sendPayload bytes) = some (.ok (), r') ∧
      Handled id r r' (.sendPayload bytes) t t (.entry covered e (chunks ++ [bytes])) [] := by
  obtain ⟨inner, hinner, hdigest, hlength, hwriter⟩ := hstate
  have hmessage : r.receivedMessage (.sendPayload bytes) = some (r.receivedSendPayload bytes) := rfl
  rw [hmessage]
  unfold receivedSendPayload
  rw [hinner]
  refine ⟨_, rfl, .ofEntryState hlookup .payload ⟨_, rfl, hdigest, hlength, ?_⟩⟩
  cases chunks with
  | nil => simp [hwriter]
  | cons chunk rest => simp [hwriter]

omit hlaw in
/-- The payload of an entry can be finalized when its chunks can be
imported. -/
theorem finalize_ok {e : Entry} {chunks : List Chunk} {inner : CurrentPayloadInner}
    (hdigest : inner.payloadDigest = e.payloadDigest) (hlength : inner.totalLength = e.payloadLength)
    (hwriter : inner.writer = if chunks = [] then none else some chunks)
    (himport : Importable σ e chunks) (store : σ) :
    ∃ store', (CurrentPayload.mk (some inner)).finalize store = (.ok {}, store') ∧
      (store' = store ∨ ∃ digest length chunks,
        store' = (Storage.importChunks store digest length chunks).2) := by
  unfold CurrentPayload.finalize
  dsimp only
  cases chunks with
  | nil =>
      rw [hwriter]
      exact ⟨store, rfl, Or.inl rfl⟩
  | cons chunk rest =>
      rcases himport with hnil | himport
      · cases hnil
      · have himported := himport store
        rw [← hdigest, ← hlength] at himported
        rw [hwriter]
        simp only [List.cons_ne_nil, if_false]
        generalize himp : Storage.importChunks store inner.payloadDigest inner.totalLength
          (chunk :: rest) = imported at himported
        obtain ⟨res, store'⟩ := imported
        obtain rfl : res = .ok () := himported
        exact ⟨store', rfl, Or.inr ⟨_, _, _, by rw [himp]⟩⟩

omit hlaw in
/-- The end of an entry, or of the whole block. -/
theorem terminatePayload_handled {id : TargetId} {isFinal covered : Bool} {e : Entry}
    {chunks : List Chunk} (hlookup : r.targets.lookup id = some t)
    (hstate : (Phase.entry covered e chunks).Matches id r.entryState)
    (himport : Importable σ e chunks) :
    ∃ r', r.receivedMessage (.terminatePayload isFinal) = some (.ok (), r') ∧
      Handled id r r' (.terminatePayload isFinal) t t
        (if isFinal then .idle covered else .announced covered) [] := by
  obtain ⟨inner, hinner, hdigest, hlength, hwriter⟩ := hstate
  obtain ⟨store, hfinal, hstore⟩ := finalize_ok hdigest hlength hwriter himport r.shared.store
  have hmessage : r.receivedMessage (.terminatePayload isFinal) =
      some (r.receivedTerminatePayload isFinal) := rfl
  rw [hmessage]
  unfold receivedTerminatePayload
  rw [hinner]
  simp only [hfinal]
  cases isFinal with
  | false => exact ⟨_, rfl, .ofEntryState hlookup (.terminate hstore) rfl⟩
  | true =>
      simp only [if_true, hlookup]
      cases hdone : t.isComplete with
      | false =>
          rw [if_neg (by simp)]
          refine ⟨_, rfl, .terminate hstore, by simp, List.prefix_refl _, fun h => h, by simp, rfl,
            rfl, rfl, rfl, ?_⟩
          rw [if_neg (by simp [hdone])]
          exact ⟨hlookup, rfl⟩
      | true =>
          rw [if_pos rfl]
          obtain ⟨outputs, heq, hmem⟩ := completeTarget_ok (t := t)
            (r := { r with shared := { r.shared with store := store }, entryState := none }) hlookup
          rw [heq]
          refine ⟨_, rfl, .terminate hstore, by simp, List.prefix_refl _, fun h => h, by simp, rfl,
            rfl, rfl, rfl, ?_⟩
          rw [if_pos (by simp [hdone])]
          exact ⟨AList.lookup_erase _ _, hmem⟩

/-- **One message of an honest peer.** When the message follows the phase, is
for the target, covers a pending range, and its token has arrived, it is
processed without an error. -/
theorem receivedMessage_handled {id : TargetId} {x : Sent} {φ φ' : Phase}
    (hlookup : r.targets.lookup id = some t) (hmatch : φ.Matches id r.entryState)
    (hstep : Phase.Step σ φ x φ') (haddr : x.Addressed id)
    (hcovers : ∀ n, x.covers = some n → n ∈ t.ourUncoveredRanges)
    (htoken : ∀ m, x.message = .sendEntry m → ∃ a,
      r.shared.staticTokens.authoriseEntryEventually m.entry m.staticTokenHandle m.dynamicToken =
        .ready (some a)) :
    ∃ r' t' new, r.receivedMessage x.message = some (.ok (), r') ∧
      Handled id r r' x.message t t' φ' new := by
  obtain ⟨message, target, opened⟩ := x
  cases hstep with
  | initial hs _ =>
      obtain rfl : message = _ := hs
      obtain ⟨rfl, -⟩ := haddr
      exact sendFingerprint_handled hlaw true hlookup hmatch hcovers
  | fingerprint hs =>
      obtain rfl : message = _ := hs
      obtain ⟨rfl, -⟩ := haddr
      exact sendFingerprint_handled hlaw _ hlookup hmatch hcovers
  | empty hs hempty =>
      obtain rfl : message = _ := hs
      obtain ⟨rfl, -⟩ := haddr
      exact announceEntries_handled hlaw hlookup hmatch hcovers (by rw [hempty]; rfl)
  | announce hs hempty =>
      obtain rfl : message = _ := hs
      obtain ⟨rfl, -⟩ := haddr
      exact announceEntries_handled hlaw hlookup hmatch hcovers (by rw [hempty]; rfl)
  | entry hs =>
      obtain rfl : message = _ := hs
      obtain ⟨a, ha⟩ := htoken _ rfl
      obtain ⟨r', hr', hhandled⟩ := sendEntry_handled hlaw hlookup hmatch ha
      exact ⟨r', t, [], hr', hhandled⟩
  | payload hs =>
      obtain rfl : message = _ := hs
      obtain ⟨r', hr', hhandled⟩ := sendPayload_handled hlookup hmatch
      exact ⟨r', t, [], hr', hhandled⟩
  | terminate hs himport =>
      obtain rfl : message = _ := hs
      obtain ⟨r', hr', hhandled⟩ := terminatePayload_handled hlookup hmatch himport
      exact ⟨r', t, [], hr', hhandled⟩
  | final hs himport =>
      obtain rfl : message = _ := hs
      obtain ⟨r', hr', hhandled⟩ := terminatePayload_handled hlookup hmatch himport
      exact ⟨r', t, [], hr', hhandled⟩

end Messages

/-! ## The account of one message -/

/-- The message is about a range, not about entries. -/
def Sent.IsControl (s : Sent) : Prop :=
  match s.message with
  | .sendFingerprint _ => True
  | .announceEntries _ => True
  | .sendEntry _ => False
  | .sendPayload _ => False
  | .terminatePayload _ => False

/-- What a message and the answer to it do to the ranges of a target. -/
structure Accounts (σ : Type) [Meadowcap] [Storage σ] (t t' : Target) (x : Sent)
    (new : List Sent) : Prop where
  intersection : t'.intersection = t.intersection
  started : t.started = true ∨ x.IsControl → t'.started = true
  ourRangeCounter : t'.ourRangeCounter = t.ourRangeCounter + (opens new).length
  theirRangeCounter : t'.theirRangeCounter = t.theirRangeCounter + x.opened.toList.length
  uncovered : t'.ourUncoveredRanges =
    t.ourUncoveredRanges \ x.covers.toFinset ∪ (opens new).toFinset
  opens_eq : opens new = List.range' t.ourRangeCounter (opens new).length
  covers_eq : covers new = if x.opened.isSome then [t.theirRangeCounter] else []
  trace : Trace (Phase.Step σ) (.idle true) new (.idle true)
  addressed : ∀ s ∈ new, s.Addressed t.intersection.peerId

theorem Accounts.silent {t : Target} {x : Sent} (hopened : x.opened = none)
    (hcovers : x.covers = none) (hcontrol : ¬ x.IsControl) : Accounts σ t t x [] where
  intersection := rfl
  started h := h.resolve_right hcontrol
  ourRangeCounter := rfl
  theirRangeCounter := by simp [hopened]
  uncovered := by simp [hcovers]
  opens_eq := rfl
  covers_eq := by simp [hopened]
  trace := .nil
  addressed := by simp

/-- The account of a message that is answered. -/
theorem Replies.accounts {t t₁ t' : Target} {x : Sent} {new : List Sent}
    (hbegin : t.beginReceive x.covers = .ok t₁) (hopened : x.opened.isSome = true)
    (hnew : Replies σ t₁.nextRangeCountTheirs.2 t' t₁.theirRangeCounter new)
    (haddr : ∀ s ∈ new, s.Addressed t₁.nextRangeCountTheirs.2.intersection.peerId) :
    Accounts σ t t' x new := by
  obtain ⟨n, hn⟩ := Option.isSome_iff_exists.mp hopened
  obtain ⟨rfl, -⟩ := beginReceive_ok hbegin
  obtain ⟨⟨htarget, hopens⟩, hcovers, htrace⟩ := hnew
  refine ⟨?_, ?_, ?_, ?_, ?_, hopens, ?_, htrace true, haddr⟩
  · rw [htarget]
    rfl
  · intro _
    rw [htarget]
    rfl
  · rw [htarget]
    rfl
  · rw [htarget, hn]
    rfl
  · rw [htarget]
    rfl
  · rw [hcovers, if_pos hopened]

/-- Every reaction keeps the account. -/
theorem Reacts.accounts (hlaw : Storage.NeverFails σ) {store store' : σ} {t t' : Target}
    {x : Sent} {new : List Sent} {id : TargetId} (haddr : x.Addressed id)
    (h : Reacts store t x.message t' new store') : Accounts σ t t' x new := by
  obtain ⟨message, target, opened⟩ := x
  cases h with
  | fingerprint hbegin hours hnew =>
      obtain ⟨-, hopened⟩ := haddr
      exact (hnew.replies hlaw).accounts hbegin hopened hnew.addressed
  | respond hbegin hwant hnew =>
      obtain ⟨-, hopened⟩ := haddr
      exact (hnew.replies hlaw).accounts hbegin (hopened.trans hwant) hnew.addressed
  | announce hbegin hwant =>
      obtain ⟨-, hopened⟩ := haddr
      obtain rfl : opened = none := by simpa [hwant] using hopened
      obtain ⟨rfl, -⟩ := beginReceive_ok hbegin
      exact ⟨rfl, fun _ => rfl, rfl, rfl, by simp [Sent.covers], rfl, rfl, .nil, by simp⟩
  | entry _ => exact .silent haddr rfl not_false
  | payload => exact .silent haddr rfl not_false
  | terminate _ => exact .silent haddr rfl not_false

end Model

end IrohWillow.Reconciler
