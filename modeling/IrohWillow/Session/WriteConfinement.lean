import IrohWillow.Session.IdealStore
import IrohWillow.Session.PeerRun
import IrohWillow.Session.ReadAccess

/-!
# Which entries of the peer are ingested

Entries of the peer arrive on the reconciliation and on the data channel. What
is checked is that an entry is authorised: its static token is the one that the
peer has bound under the handle in the message. On the reconciliation channel
an entry must also be part of a block that an announcement has opened, for a
target of the session.

Nothing compares the entry with the areas of the session
(`ingests_foreign_entry`): writing is governed by the tokens of the entries
alone.
-/

namespace IrohWillow

/-! ## What one message does to the entries -/

namespace Reconciler

variable {σ : Type} [Meadowcap]

/-- The parts of the shared state that decide what is ingested. -/
structure SameWrites (sh sh' : Shared σ) : Prop where
  ingested : sh'.ingested = sh.ingested
  theirs : sh'.staticTokens.theirs = sh.staticTokens.theirs
  sessionId : sh'.sessionId = sh.sessionId

theorem SameWrites.refl (sh : Shared σ) : SameWrites sh sh := ⟨rfl, rfl, rfl⟩

theorem Shared.Keeps.sameWrites {sh sh' : Shared σ} (h : sh.Keeps sh') : SameWrites sh sh' :=
  ⟨h.ingested, h.theirs, h.sessionId⟩

theorem finishTarget_sameWrites {r : Reconciler σ} {sh : Shared σ} {id : TargetId}
    {res : Except Failure Target × Shared σ} (h : SameWrites sh res.2) :
    SameWrites sh (r.finishTarget id res).2.shared := by
  obtain ⟨⟨outputs, heq⟩, -⟩ := finishTarget_spec r id res
  rw [heq]
  exact ⟨h.ingested, h.theirs, h.sessionId⟩

theorem completeTarget_sameWrites (r : Reconciler σ) (id : TargetId) :
    SameWrites r.shared (r.completeTarget id).2.shared := by
  obtain ⟨-, ⟨outputs, heq⟩, -⟩ := completeTarget_spec r id
  rw [heq]
  exact ⟨rfl, rfl, rfl⟩

variable [Storage σ]

theorem receivedSendFingerprint_sameWrites (sh : Shared σ) (t : Target)
    (m : ReconciliationSendFingerprint) : SameWrites sh (t.receivedSendFingerprint sh m).2 := by
  unfold Target.receivedSendFingerprint
  split
  · exact .refl sh
  · rename_i t₁ _
    dsimp only
    rcases answerFingerprint_spec sh t₁.nextRangeCountTheirs.2 m t₁.nextRangeCountTheirs.1 with
      ⟨e, heq⟩ | ⟨ours, new, -, hemits, -⟩
    · rw [heq]
      exact .refl sh
    · exact ⟨hemits.keeps.ingested, hemits.keeps.theirs, hemits.keeps.sessionId⟩

theorem receivedAnnounceEntries_sameWrites (sh : Shared σ) (t : Target)
    (m : ReconciliationAnnounceEntries) : SameWrites sh (t.receivedAnnounceEntries sh m).2 := by
  unfold Target.receivedAnnounceEntries
  split
  · exact .refl sh
  · rename_i t₁ _
    split
    · obtain ⟨new, hemits, -⟩ := announceAndSendEntries_spec sh t₁.nextRangeCountTheirs.2 m.range
        false (some t₁.nextRangeCountTheirs.1) false
      exact hemits.keeps.sameWrites
    · exact .refl sh

theorem init_sameWrites [WillowDataModel] (sh : Shared σ) (i : AoiIntersection) :
    SameWrites sh (Target.init sh i).2 := by
  rcases init_cases sh i with ⟨e, heq⟩ | heq | ⟨range, fp, -, -, -, heq⟩
  · rw [heq]
    exact .refl _
  · rw [heq]
    exact .refl _
  · rw [heq]
    exact (sendFingerprint_spec sh { intersection := i } range fp none).2.keeps.sameWrites

theorem takeInput_sameWrites [WillowDataModel] {r r' : Reconciler σ} {res : Except Failure Unit}
    (h : r.takeInput = some (res, r')) :
    SameWrites r.shared r'.shared ∧ r'.entryState = r.entryState := by
  obtain ⟨i, inbox, -, ⟨e, -, rfl⟩ | ⟨t, sh, hinit, -, rfl⟩⟩ := takeInput_cases h
  · exact ⟨.refl _, rfl⟩
  · have hsame := init_sameWrites r.shared i
    rw [hinit] at hsame
    exact ⟨hsame, rfl⟩

/-- The last message of an entry ingests nothing, and closes the block when it
says so. -/
theorem receivedTerminatePayload_cases (r : Reconciler σ) (isFinal : Bool) :
    SameWrites r.shared (r.receivedTerminatePayload isFinal).2.shared ∧
      ((r.receivedTerminatePayload isFinal).1 = .ok () → r.entryState.isSome = true ∧
        (isFinal = true → (r.receivedTerminatePayload isFinal).2.entryState = none)) := by
  unfold receivedTerminatePayload
  split
  · exact ⟨.refl _, fun h => by cases h⟩
  · rename_i state hstate
    have hsome : r.entryState.isSome = true := by rw [hstate]; rfl
    split
    · exact ⟨⟨rfl, rfl, rfl⟩, fun h => by cases h⟩
    · rename_i payload store _
      dsimp only
      cases isFinal with
      | false => exact ⟨⟨rfl, rfl, rfl⟩, fun _ => ⟨hsome, fun h => by cases h⟩⟩
      | true =>
          rw [if_pos rfl]
          split
          · exact ⟨⟨rfl, rfl, rfl⟩, fun h => by cases h⟩
          · split
            · refine ⟨?_, fun _ => ⟨hsome, fun _ => (completeTarget_spec _ state.target).2.2⟩⟩
              have hsame := completeTarget_sameWrites
                { r with shared := { r.shared with store := store }, entryState := none }
                state.target
              exact ⟨hsame.ingested, hsame.theirs, hsame.sessionId⟩
            · exact ⟨⟨rfl, rfl, rfl⟩, fun _ => ⟨hsome, fun _ => rfl⟩⟩

/-- A message of the reconciliation channel ingests at most the entry that it
carries, and that only while a block of entries is open. -/
theorem receivedMessage_writes {r r' : Reconciler σ} {res : Except Failure Unit}
    {message : ReconciliationMessage} (h : r.receivedMessage message = some (res, r')) :
    SameWrites r.shared r'.shared ∨
      ∃ m a store, message = .sendEntry m ∧ r.entryState.isSome = true ∧
        r.shared.staticTokens.authoriseEntryEventually m.entry m.staticTokenHandle
          m.dynamicToken = .ready (some a) ∧
        r'.shared = { r.shared with
          store := store
          ingested := r.shared.ingested ++ [(a, .remote r.shared.sessionId)] } := by
  cases message with
  | sendFingerprint m =>
      left
      rcases receivedMessage_sendFingerprint h with ⟨e, -, rfl⟩ | ⟨t, -, heq⟩
      · exact .refl _
      · obtain rfl := congrArg Prod.snd heq
        exact finishTarget_sameWrites (receivedSendFingerprint_sameWrites r.shared t m)
  | announceEntries m =>
      left
      rcases receivedMessage_announceEntries h with ⟨e, -, rfl⟩ | ⟨r₁, hr₁, hcases⟩
      · exact .refl _
      · obtain ⟨-, rfl⟩ := entryStateAnnounce_ok hr₁
        rcases hcases with ⟨e, -, rfl⟩ | ⟨t, -, heq⟩
        · exact .refl _
        · obtain rfl := congrArg Prod.snd heq
          exact finishTarget_sameWrites (receivedAnnounceEntries_sameWrites r.shared t m)
  | sendEntry m =>
      unfold receivedMessage at h
      dsimp only at h
      split at h
      · cases h
      · obtain rfl := (Prod.mk.inj (Option.some.inj h)).2
        exact Or.inl (.refl _)
      · rename_i a ha
        obtain rfl := congrArg Prod.snd (Option.some.inj h)
        rcases receivedSendEntry_cases r m a with heq | ⟨state, payload, store, new, hst, hnew, heq⟩
        · rw [heq]
          exact Or.inl (.refl _)
        · rw [heq]
          -- nothing is ingested, or the entry is
          rcases hnew with rfl | rfl
          · exact Or.inl ⟨List.append_nil _, rfl, rfl⟩
          · exact Or.inr ⟨m, a, store, rfl, by rw [hst]; rfl, ha, rfl⟩
  | sendPayload bytes =>
      left
      obtain rfl := congrArg Prod.snd (Option.some.inj h)
      unfold receivedSendPayload
      repeat' split
      all_goals exact ⟨rfl, rfl, rfl⟩
  | terminatePayload isFinal =>
      left
      obtain rfl := congrArg Prod.snd (Option.some.inj h)
      exact (receivedTerminatePayload_cases r isFinal).1

/-- A block of entries is open after a message when the message opens or
continues it. -/
theorem receivedMessage_entryState {r r' : Reconciler σ} {message : ReconciliationMessage}
    (h : r.receivedMessage message = some (.ok (), r')) (hopen : r'.entryState.isSome = true) :
    (∃ m t, message = .announceEntries m ∧ m.isEmpty = false ∧
        r.targets.lookup m.handles = some t) ∨
      ((∀ m, message ≠ .announceEntries m) ∧ message ≠ .terminatePayload true ∧
        r.entryState.isSome = true) := by
  cases message with
  | sendFingerprint m =>
      rcases receivedMessage_sendFingerprint h with ⟨e, he, -⟩ | ⟨t, -, heq⟩
      · cases he
      · obtain rfl := congrArg Prod.snd heq
        obtain ⟨-, -, hstate, -⟩ := finishTarget_spec r m.handles
          (t.receivedSendFingerprint r.shared m)
        exact Or.inr ⟨by simp, by simp, hstate ▸ hopen⟩
  | announceEntries m =>
      rcases receivedMessage_announceEntries h with ⟨e, he, -⟩ | ⟨r₁, hr₁, hcases⟩
      · cases he
      · obtain ⟨-, rfl⟩ := entryStateAnnounce_ok hr₁
        rcases hcases with ⟨e, he, -⟩ | ⟨t, ht, heq⟩
        · cases he
        · obtain rfl := congrArg Prod.snd heq
          obtain ⟨-, -, hstate, -⟩ := finishTarget_spec
            { r with entryState := if m.isEmpty then none else some { target := m.handles } }
            m.handles (t.receivedAnnounceEntries r.shared m)
          -- an empty announcement opens no block
          have hnonempty : m.isEmpty = false := by
            rw [hstate] at hopen
            cases hm : m.isEmpty with
            | false => rfl
            | true => simp [hm] at hopen
          exact Or.inl ⟨m, t, rfl, hnonempty, ht⟩
  | sendEntry m =>
      refine Or.inr ⟨by simp, by simp, ?_⟩
      unfold receivedMessage at h
      dsimp only at h
      split at h
      · cases h
      · cases h
      · rename_i a ha
        obtain rfl := congrArg Prod.snd (Option.some.inj h)
        rcases receivedSendEntry_cases r m a with heq | ⟨state, payload, store, new, hst, -⟩
        · exact heq ▸ hopen
        · rw [hst]
          rfl
  | sendPayload bytes =>
      refine Or.inr ⟨by simp, by simp, ?_⟩
      obtain rfl := congrArg Prod.snd (Option.some.inj h)
      unfold receivedSendPayload at hopen
      split at hopen
      · exact hopen
      · rename_i state hst
        rw [hst]
        rfl
  | terminatePayload isFinal =>
      have hcases := (receivedTerminatePayload_cases r isFinal).2
      have hok := Option.some.inj h
      rw [hok] at hcases
      -- the last payload of a block closes it
      obtain ⟨hsome, hfinal⟩ := hcases rfl
      refine Or.inr ⟨by simp, ?_, hsome⟩
      intro heq
      rw [hfinal (ReconciliationMessage.terminatePayload.inj heq)] at hopen
      cases hopen

end Reconciler

/-! ## Whole runs -/

namespace PeerRun

open Reconciler

/-- A message that does not end an open block of entries. -/
def ContinuesBlock : ReconciliationMessage → Prop
  | .announceEntries _ => False
  | .terminatePayload isFinal => isFinal = false
  | .sendFingerprint _ => True
  | .sendEntry _ => True
  | .sendPayload _ => True

/-- After these messages a block of entries is open: the last announcement was
not empty, named a target of the session, and has not been terminated. -/
def OpenBlock (session : List AoiIntersection) (messages : List ReconciliationMessage) : Prop :=
  ∃ before m after, messages = before ++ .announceEntries m :: after ∧ m.isEmpty = false ∧
    (∃ i ∈ session, i.id = m.handles) ∧ ∀ message ∈ after, ContinuesBlock message

theorem OpenBlock.continues {session : List AoiIntersection}
    {messages : List ReconciliationMessage} {message : ReconciliationMessage}
    (h : OpenBlock session messages) (hc : ContinuesBlock message) :
    OpenBlock session (messages ++ [message]) := by
  obtain ⟨before, m, after, rfl, hempty, hi, hafter⟩ := h
  refine ⟨before, m, after ++ [message], by simp, hempty, hi, fun x hx => ?_⟩
  rcases List.mem_append.mp hx with hx | hx
  · exact hafter x hx
  · obtain rfl := List.mem_singleton.mp hx
    exact hc

section Runs

variable {σ : Type} [Meadowcap]

/-- The entry is the one in the message, with the static token that was bound
under the handle and the dynamic token of the message. -/
def AuthorisedBy (tokens : List StaticToken) (entry : Entry) (handle : Nat)
    (dynamicToken : DynamicToken) (a : AuthorisedEntry) : Prop :=
  a.entry = entry ∧ a.token.signature = dynamicToken ∧
    tokens[handle]? = some a.token.capability

theorem AuthorisedBy.mono {tokens : List StaticToken} {entry : Entry} {handle : Nat}
    {dynamicToken : DynamicToken} {a : AuthorisedEntry}
    (h : AuthorisedBy tokens entry handle dynamicToken a) (token : StaticToken) :
    AuthorisedBy (tokens ++ [token]) entry handle dynamicToken a := by
  obtain ⟨hentry, hdyn, hget⟩ := h
  have hlt := (List.getElem?_eq_some_iff.mp hget).1
  exact ⟨hentry, hdyn, (List.getElem?_append_left hlt).trans hget⟩

/-- A message of the session has brought the entry: on the reconciliation
channel inside an open block, or on the data channel. -/
def Brought (session : List AoiIntersection) (s : PeerRun σ) (a : AuthorisedEntry) : Prop :=
  (∃ before m after, s.received = before ++ .sendEntry m :: after ∧ OpenBlock session before ∧
    AuthorisedBy s.receivedTokens m.entry m.staticTokenHandle m.dynamicToken a) ∨
  ∃ m, .sendEntry m ∈ s.receivedData ∧
    AuthorisedBy s.receivedTokens m.entry m.staticTokenHandle m.dynamicToken a

theorem Brought.message {session : List AoiIntersection} {s s' : PeerRun σ} {a : AuthorisedEntry}
    (h : Brought session s a) {message : ReconciliationMessage}
    (hreceived : s'.received = s.received ++ [message])
    (hdata : s'.receivedData = s.receivedData) (htokens : s'.receivedTokens = s.receivedTokens) :
    Brought session s' a := by
  rcases h with ⟨before, m, after, heq, hopen, hauth⟩ | ⟨m, hmem, hauth⟩
  · refine Or.inl ⟨before, m, after ++ [message], ?_, hopen, htokens ▸ hauth⟩
    rw [hreceived, heq, List.append_assoc, List.cons_append]
  · exact Or.inr ⟨m, hdata ▸ hmem, htokens ▸ hauth⟩

/-- **The invariant.** Tokens are bound in the order in which they arrived, the
targets are those of the session, an open block was announced, and every
ingested entry was brought by a message. -/
structure WriteInv (session : List AoiIntersection) (sessionId : SessionId)
    (s : PeerRun σ) : Prop where
  sessionId_eq : s.reconciler.shared.sessionId = sessionId
  tokens : s.reconciler.shared.staticTokens.theirs.Mirrors s.receivedTokens
  worksOn : WorksOn session s.reconciler
  block : s.reconcilerFailed = false → s.reconciler.entryState.isSome = true →
    OpenBlock session s.received
  ingested : ∀ a origin, (a, origin) ∈ s.reconciler.shared.ingested →
    origin = .remote sessionId ∧ Brought session s a

variable {session : List AoiIntersection} {sessionId : SessionId} {s : PeerRun σ}

/-- An entry that is authorised now is authorised by the tokens received. -/
theorem WriteInv.authorisedBy (h : WriteInv session sessionId s) {entry : Entry} {handle : Nat}
    {dynamicToken : DynamicToken} {a : AuthorisedEntry}
    (ha : s.reconciler.shared.staticTokens.authoriseEntryEventually entry handle dynamicToken =
      .ready (some a)) : AuthorisedBy s.receivedTokens entry handle dynamicToken a := by
  obtain ⟨hget, hentry, hdyn⟩ := StaticTokens.authoriseEntryEventually_ready ha
  exact ⟨hentry, hdyn, (h.tokens.tryGet handle).symm.trans hget⟩

/-- The peer binds one more token. -/
theorem WriteInv.bindStaticToken (h : WriteInv session sessionId s) (token : StaticToken) :
    WriteInv session sessionId { s with
      reconciler := { s.reconciler with shared := { s.reconciler.shared with
        staticTokens := s.reconciler.shared.staticTokens.bindTheirs token } }
      receivedTokens := s.receivedTokens ++ [token] } := by
  refine ⟨h.sessionId_eq, h.tokens.bind, ⟨h.worksOn.targets, h.worksOn.inbox⟩, h.block, ?_⟩
  intro a origin hmem
  obtain ⟨horigin, hb⟩ := h.ingested a origin hmem
  refine ⟨horigin, ?_⟩
  rcases hb with ⟨before, m, after, heq, hopen, hauth⟩ | ⟨m, hm, hauth⟩
  · exact Or.inl ⟨before, m, after, heq, hopen, hauth.mono token⟩
  · exact Or.inr ⟨m, hm, hauth.mono token⟩

/-- A change of the shared state that does not decide what is ingested. -/
theorem WriteInv.sameWrites (h : WriteInv session sessionId s) {sh : Shared σ}
    (hsame : SameWrites s.reconciler.shared sh) :
    WriteInv session sessionId { s with reconciler := { s.reconciler with shared := sh } } :=
  ⟨hsame.sessionId.trans h.sessionId_eq, hsame.theirs ▸ h.tokens,
    ⟨h.worksOn.targets, h.worksOn.inbox⟩, h.block,
    fun a origin hmem => h.ingested a origin (hsame.ingested ▸ hmem)⟩

variable [Storage σ]

/-- **One message of the reconciliation channel.** -/
theorem WriteInv.message (h : WriteInv session sessionId s) (hok : s.reconcilerFailed = false)
    {message : ReconciliationMessage} {res : Except Failure Unit} {r : Reconciler σ}
    (hm : s.reconciler.receivedMessage message = some (res, r)) :
    WriteInv session sessionId { s with
      reconciler := r
      reconcilerFailed := isError res
      received := s.received ++ [message] } := by
  have hblock : isError res = false → r.entryState.isSome = true →
      OpenBlock session (s.received ++ [message]) := by
    intro hres hopen
    cases res with
    | error e => cases hres
    | ok =>
        rcases receivedMessage_entryState hm hopen with ⟨m, t, rfl, hempty, ht⟩ | ⟨hann, hterm, hst⟩
        · obtain ⟨hi, hid⟩ := h.worksOn.targets _ t ht
          exact ⟨s.received, m, [], rfl, hempty, ⟨_, hi, hid⟩, by simp⟩
        · refine (h.block hok hst).continues ?_
          cases message with
          | announceEntries m => exact absurd rfl (hann m)
          | terminatePayload isFinal =>
              cases isFinal with
              | true => exact absurd rfl hterm
              | false => rfl
          | sendFingerprint _ => trivial
          | sendEntry _ => trivial
          | sendPayload _ => trivial
  have hbrought : ∀ a, Brought session s a → Brought session
      { s with
        reconciler := r
        reconcilerFailed := isError res
        received := s.received ++ [message] } a := fun a ha => ha.message rfl rfl rfl
  have hworks := h.worksOn.receivedMessage hm
  rcases receivedMessage_writes hm with hsame | ⟨m, a, store, rfl, hopen, ha, hshared⟩
  · refine ⟨hsame.sessionId.trans h.sessionId_eq, hsame.theirs ▸ h.tokens, hworks, hblock, ?_⟩
    intro a origin hmem
    obtain ⟨horigin, hb⟩ := h.ingested a origin (hsame.ingested ▸ hmem)
    exact ⟨horigin, hbrought a hb⟩
  · refine ⟨?_, ?_, hworks, hblock, ?_⟩
    · show r.shared.sessionId = sessionId
      rw [hshared]
      exact h.sessionId_eq
    · show r.shared.staticTokens.theirs.Mirrors s.receivedTokens
      rw [hshared]
      exact h.tokens
    · intro a' origin hmem
      replace hmem : (a', origin) ∈ r.shared.ingested := hmem
      rw [hshared] at hmem
      rcases List.mem_append.mp hmem with hmem | hmem
      · obtain ⟨horigin, hb⟩ := h.ingested a' origin hmem
        exact ⟨horigin, hbrought a' hb⟩
      · obtain ⟨rfl, rfl⟩ := Prod.mk.inj (List.mem_singleton.mp hmem)
        exact ⟨by rw [h.sessionId_eq], Or.inl ⟨s.received, m, [], rfl, h.block hok hopen,
          h.authorisedBy ha⟩⟩

/-- **One message of the data channel.** -/
theorem WriteInv.dataMessage (h : WriteInv session sessionId s) {message : DataMessage}
    {res : Except Failure DataReceiver} {sh : Shared σ} {d : DataReceiver}
    (hm : s.dataReceiver.onMessage s.reconciler.shared message = some (res, sh)) :
    WriteInv session sessionId { s with
      reconciler := { s.reconciler with shared := sh }
      dataReceiver := d
      dataFailed := isError res
      receivedData := s.receivedData ++ [message] } := by
  obtain ⟨store, new, rfl, hnew⟩ := DataReceiver.onMessage_cases hm
  refine ⟨h.sessionId_eq, h.tokens, ⟨h.worksOn.targets, h.worksOn.inbox⟩, h.block, ?_⟩
  intro a origin hmem
  rcases List.mem_append.mp hmem with hold | hadded
  · obtain ⟨horigin, hb⟩ := h.ingested a origin hold
    refine ⟨horigin, hb.imp id ?_⟩
    rintro ⟨m, hm, hauth⟩
    exact ⟨m, List.mem_append_left _ hm, hauth⟩
  · rcases hnew with rfl | ⟨m, a', rfl, ha, rfl⟩
    · cases hadded
    · obtain ⟨rfl, rfl⟩ := Prod.mk.inj (List.mem_singleton.mp hadded)
      exact ⟨by rw [h.sessionId_eq], Or.inr ⟨m, by simp, h.authorisedBy ha⟩⟩

variable [WillowDataModel]

/-- **One step.** -/
theorem WriteInv.step (h : WriteInv session sessionId s) {a : Action σ} {s' : PeerRun σ}
    (hstep : step s a = some s') : WriteInv session sessionId s' := by
  cases a with
  | takeInput =>
      obtain ⟨hok, res, r, hr, rfl⟩ := step_takeInput hstep
      obtain ⟨hsame, hstate⟩ := takeInput_sameWrites hr
      refine ⟨hsame.sessionId.trans h.sessionId_eq, hsame.theirs ▸ h.tokens,
        h.worksOn.takeInput hr, fun _ hopen => ?_, fun a origin hmem => ?_⟩
      · exact h.block hok (hstate ▸ hopen)
      · exact h.ingested a origin (hsame.ingested ▸ hmem)
  | closeInbox =>
      obtain rfl := Option.some.inj hstep
      exact ⟨h.sessionId_eq, h.tokens, ⟨h.worksOn.targets, h.worksOn.inbox⟩, h.block, h.ingested⟩
  | message m =>
      obtain ⟨hok, res, r, hr, rfl⟩ := step_message hstep
      exact h.message hok hr
  | dataMessage m =>
      obtain ⟨-, res, sh, d, hsh, -, rfl⟩ := step_dataMessage hstep
      exact h.dataMessage hsh
  | bindStaticToken token =>
      obtain rfl := Option.some.inj hstep
      exact h.bindStaticToken token
  | bindOurs token =>
      obtain rfl := Option.some.inj hstep
      obtain ⟨hemits, -⟩ := bindAndSendOurs_spec (P := fun _ => True) s.reconciler.shared token
      exact h.sameWrites hemits.keeps.sameWrites
  | write store =>
      obtain rfl := Option.some.inj hstep
      exact h.sameWrites ⟨rfl, rfl, rfl⟩

/-- **What is ingested from the peer.** In every run, an entry is ingested with
the origin of the session only when a message of the session carried it, and it
is authorised by the static token that the peer bound under the handle in the
message; on the reconciliation channel the message was inside a block that a
non-empty announcement for a target of the session had opened. -/
theorem ingested_brought (store : σ) (ourRole : Role) (sessionId : SessionId)
    (maxEagerPayloadSize : U64) (session : List AoiIntersection) {s : PeerRun σ}
    (hrun : Transition.Reachable step (fun _ _ => True)
      (start store ourRole sessionId maxEagerPayloadSize session) s) :
    ∀ a origin, (a, origin) ∈ s.reconciler.shared.ingested →
      origin = .remote sessionId ∧ Brought session s a := by
  have hstart : WriteInv session sessionId
      (start store ourRole sessionId maxEagerPayloadSize session) :=
    ⟨rfl, ResourceMap.mirrors_empty, ⟨by simp [start], by simp [start]⟩, by simp [start],
      by simp [start]⟩
  have hinv : WriteInv session sessionId s :=
    hrun.invariant hstart fun _ _ _ hs _ hstep => hs.step hstep
  exact hinv.ingested

end Runs

/-! ### A foreign entry -/

section Samples

open IrohWillow.Sample

attribute [local instance] acceptingSignatures timestampHash ReadAccess.Sample.nestedAreas

/-- A namespace that the session is not about. -/
def Sample.foreignNamespace : NamespaceId := .ofByte 9

/-- The full write capability for it. -/
def Sample.foreignCapability : McCapability :=
  { writeCapability with grantedNamespace := foreignNamespace }

/-- An entry of the foreign namespace. -/
def Sample.foreignEntry : Entry := { bareEntryAt [] 1 with namespaceId := foreignNamespace }

/-- The session is about everything in the sample namespace. -/
def Sample.wholeNamespace : AoiIntersection :=
  { ourHandle := 0
    theirHandle := 0
    intersection := ⟨.full, 0, 0⟩
    namespaceId := namespaceId }

/-- The peer announces entries for the target and sends the foreign one. -/
def Sample.sendsForeign : List (Action IdealStore) :=
  [.takeInput, .bindStaticToken Sample.foreignCapability,
    .message (.announceEntries ⟨.full, false, false, false, 0, 0, none⟩),
    .message (.sendEntry ⟨Sample.foreignEntry, 0, 0, .ofByte 0⟩)]

/-- The session with an empty store. -/
def Sample.emptyBetty : PeerRun IdealStore := start {} .betty 0 0 [Sample.wholeNamespace]

open IrohWillow.PeerRun.Sample

/-- The foreign entry is ingested, and nothing else. -/
theorem sendsForeign_run :
    ((Transition.run step emptyBetty sendsForeign).map fun s =>
      s.reconciler.shared.ingested.map fun x => (x.1.entry, x.2)) =
      some [(foreignEntry, .remote 0)] := by rfl

/-- An entry outside of the namespace of the only intersection is ingested. -/
theorem ingests_foreign_entry :
    ¬ ∀ (_ : Meadowcap) (_ : WillowDataModel) (σ : Type) (_ : Storage σ) (store : σ)
      (ourRole : Role) (sessionId : SessionId) (maxEagerPayloadSize : U64)
      (session : List AoiIntersection) (s : PeerRun σ),
      Transition.Reachable step (fun _ _ => True)
        (start store ourRole sessionId maxEagerPayloadSize session) s →
      ∀ a, (a, .remote sessionId) ∈ s.reconciler.shared.ingested →
        ∃ i ∈ session, a.entry.namespaceId = i.namespaceId ∧ i.area.IncludesEntry a.entry := by
  intro h
  obtain ⟨s, hs, hingested⟩ := Option.map_eq_some_iff.mp sendsForeign_run
  have hmem : (foreignEntry, EntryOrigin.remote 0) ∈
      s.reconciler.shared.ingested.map fun x => (x.1.entry, x.2) := by simp [hingested]
  obtain ⟨⟨a, origin⟩, ha, heq⟩ := List.mem_map.mp hmem
  obtain ⟨hentry, rfl⟩ := Prod.mk.inj heq
  obtain ⟨i, hi, hns, -⟩ := h acceptingSignatures ReadAccess.Sample.nestedAreas IdealStore
    inferInstance {} .betty 0 0 [wholeNamespace] s (.of_run hs (by decide)) a ha
  obtain rfl := List.mem_singleton.mp hi
  rw [hentry] at hns
  exact absurd hns (by decide)

/-- It was brought by a message, with the token that the peer has bound. -/
theorem ingested_brought_foreign :
    ∃ s a, Transition.Reachable step (fun _ _ => True) emptyBetty s ∧ a.entry = foreignEntry ∧
      (a, .remote 0) ∈ s.reconciler.shared.ingested ∧ Brought [wholeNamespace] s a := by
  obtain ⟨s, hs, hingested⟩ := Option.map_eq_some_iff.mp sendsForeign_run
  have hmem : (foreignEntry, EntryOrigin.remote 0) ∈
      s.reconciler.shared.ingested.map fun x => (x.1.entry, x.2) := by simp [hingested]
  obtain ⟨⟨a, origin⟩, ha, heq⟩ := List.mem_map.mp hmem
  obtain ⟨hentry, rfl⟩ := Prod.mk.inj heq
  have hrun : Transition.Reachable step (fun _ _ => True) emptyBetty s := .of_run hs (by decide)
  exact ⟨s, a, hrun, hentry, ha, (ingested_brought _ _ _ _ _ hrun a _ ha).2⟩

end Samples

end PeerRun

end IrohWillow
