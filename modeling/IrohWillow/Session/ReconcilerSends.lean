import IrohWillow.Session.Reconciler

/-!
# What the reconciler sends

One spec lemma for each function of the reconciler that sends. Whatever the
outcome, a call appends messages to the log and changes nothing else but the
tokens that we bind (`Emits`), and each message is explained by the range it
was sent for (`FromRange`, `FromPart`).
-/

namespace IrohWillow.Reconciler

theorem isEmpty_map_ok {ε α : Type} (l : List α) :
    (l.map (Except.ok (ε := ε))).isEmpty = l.isEmpty := by
  cases l <;> rfl

/-- The target after the range that a message covers has been marked. -/
theorem beginReceive_ok {t t' : Target} {covers : Option Nat}
    (h : t.beginReceive covers = .ok t') :
    t' = { t with
        started := true
        ourUncoveredRanges := t.ourUncoveredRanges \ covers.toFinset } ∧
      ∀ n, covers = some n → n ∈ t.ourUncoveredRanges := by
  unfold Target.beginReceive at h
  cases covers with
  | none =>
      obtain rfl := Except.ok.inj h
      simp
  | some n =>
      simp only [Target.markOurRangeCovered] at h
      split at h
      · rename_i hmem
        obtain rfl := Except.ok.inj h
        simp [Finset.erase_eq, hmem]
      · cases h

section Model

variable {σ : Type} [Meadowcap]

/-! ## The effect of a call -/

/-- The handles of our tokens are the positions of the tokens in the log. -/
def Shared.Mirrored (sh : Shared σ) : Prop := sh.staticTokens.ours.Mirrors sh.sentTokens

/-- If the message carries an entry, then the token it refers to is among
`tokens` and authorises the entry. -/
def Sent.Redeemable (tokens : List StaticToken) (s : Sent) : Prop :=
  ∀ m, s.message = .sendEntry m → ∃ token a, tokens[m.staticTokenHandle]? = some token ∧
    AuthorisedEntry.new m.entry ⟨token, m.dynamicToken⟩ = some a

theorem Sent.Redeemable.mono {tokens tokens' : List StaticToken} {s : Sent}
    (h : s.Redeemable tokens) (hle : tokens <+: tokens') : s.Redeemable tokens' := by
  intro m hm
  obtain ⟨token, a, hget, hnew⟩ := h m hm
  obtain ⟨_, rfl⟩ := hle
  have hlt := (List.getElem?_eq_some_iff.mp hget).1
  exact ⟨token, a, (List.getElem?_append_left hlt).trans hget, hnew⟩

/-- What answering a message leaves as it is. -/
structure Shared.Keeps (sh sh' : Shared σ) : Prop where
  store : sh'.store = sh.store
  ourRole : sh'.ourRole = sh.ourRole
  theirs : sh'.staticTokens.theirs = sh.staticTokens.theirs
  sessionId : sh'.sessionId = sh.sessionId
  maxEagerPayloadSize : sh'.maxEagerPayloadSize = sh.maxEagerPayloadSize
  outputs : sh'.outputs = sh.outputs
  answered : sh'.answered = sh.answered
  ingested : sh'.ingested = sh.ingested

theorem Shared.Keeps.refl (sh : Shared σ) : sh.Keeps sh :=
  ⟨rfl, rfl, rfl, rfl, rfl, rfl, rfl, rfl⟩

theorem Shared.Keeps.trans {sh₁ sh₂ sh₃ : Shared σ} (h : sh₁.Keeps sh₂) (h' : sh₂.Keeps sh₃) :
    sh₁.Keeps sh₃ :=
  ⟨h'.store.trans h.store, h'.ourRole.trans h.ourRole, h'.theirs.trans h.theirs,
    h'.sessionId.trans h.sessionId, h'.maxEagerPayloadSize.trans h.maxEagerPayloadSize,
    h'.outputs.trans h.outputs, h'.answered.trans h.answered, h'.ingested.trans h.ingested⟩

/-- A call has sent the messages `new`, all of which satisfy `P`. -/
structure Emits (P : Sent → Prop) (sh sh' : Shared σ) (new : List Sent) : Prop where
  sent : sh'.sent = sh.sent ++ new
  all : ∀ s ∈ new, P s
  keeps : sh.Keeps sh'
  sentTokens : sh.sentTokens <+: sh'.sentTokens
  mirrored : sh.Mirrored → sh'.Mirrored
  redeemable : sh.Mirrored → ∀ s ∈ new, s.Redeemable sh'.sentTokens

variable {P Q : Sent → Prop} {sh sh' sh₁ sh₂ sh₃ : Shared σ} {new new' : List Sent}

theorem Emits.refl (sh : Shared σ) : Emits P sh sh [] :=
  ⟨by simp, by simp, .refl sh, List.prefix_refl _, id, by simp⟩

theorem Emits.trans (h : Emits P sh₁ sh₂ new) (h' : Emits P sh₂ sh₃ new') :
    Emits P sh₁ sh₃ (new ++ new') where
  sent := by rw [h'.sent, h.sent, List.append_assoc]
  all s hs := (List.mem_append.mp hs).elim (h.all s) (h'.all s)
  keeps := h.keeps.trans h'.keeps
  sentTokens := h.sentTokens.trans h'.sentTokens
  mirrored hm := h'.mirrored (h.mirrored hm)
  redeemable hm s hs := by
    rcases List.mem_append.mp hs with hs | hs
    · exact (h.redeemable hm s hs).mono h'.sentTokens
    · exact h'.redeemable (h.mirrored hm) s hs

theorem Emits.mono (h : Emits P sh sh' new) (hPQ : ∀ s ∈ new, P s → Q s) : Emits Q sh sh' new :=
  { h with all := fun s hs => hPQ s hs (h.all s hs) }

/-- One message is sent. -/
theorem Emits.send (sh : Shared σ) {target : AoiIntersection} {message : ReconciliationMessage}
    {opened : Option Nat} (hP : P ⟨message, target, opened⟩)
    (hred : sh.Mirrored → Sent.Redeemable sh.sentTokens ⟨message, target, opened⟩) :
    Emits P sh (sh.send target message opened) [⟨message, target, opened⟩] where
  sent := rfl
  all s hs := by
    obtain rfl := List.mem_singleton.mp hs
    exact hP
  keeps := ⟨rfl, rfl, rfl, rfl, rfl, rfl, rfl, rfl⟩
  sentTokens := List.prefix_refl _
  mirrored := id
  redeemable hm s hs := by
    obtain rfl := List.mem_singleton.mp hs
    exact hred hm

/-- A token is bound, and sent when it is new. -/
theorem bindAndSendOurs_spec (sh : Shared σ) (token : StaticToken) :
    Emits P sh (sh.bindAndSendOurs token).2 [] ∧
      (sh.Mirrored → (sh.bindAndSendOurs token).2.sentTokens[(sh.bindAndSendOurs token).1]? =
        some token) := by
  rcases ResourceMap.bindIfNew_cases sh.staticTokens.ours token with ⟨h, hget, hbind⟩ | hbind
  · have heq : sh.bindAndSendOurs token = (h, sh) := by
      simp [Shared.bindAndSendOurs, StaticTokens.bindOurs, hbind]
    rw [heq]
    exact ⟨.refl sh, fun hm => (hm.tryGet h).symm.trans hget⟩
  · have heq : sh.bindAndSendOurs token = (sh.staticTokens.ours.nextHandle,
        { sh with
          staticTokens := { sh.staticTokens with ours := (sh.staticTokens.ours.bind token).2 }
          sentTokens := sh.sentTokens ++ [token] }) := by
      simp [Shared.bindAndSendOurs, StaticTokens.bindOurs, hbind]
    rw [heq]
    refine ⟨⟨by simp, by simp, ⟨rfl, rfl, rfl, rfl, rfl, rfl, rfl, rfl⟩, List.prefix_append _ _,
      ResourceMap.Mirrors.bind, by simp⟩, fun hm => ?_⟩
    simp [hm.nextHandle]

/-! ## Sending a fingerprint -/

/-- The fingerprint of a range for a target. -/
def Target.fingerprintMessage (t : Target) (range : Range3d) (fingerprint : Fingerprint)
    (covers : Option Nat) : Sent :=
  ⟨.sendFingerprint
    { range := range
      fingerprint := fingerprint
      senderHandle := t.intersection.ourHandle
      receiverHandle := t.intersection.theirHandle
      covers := covers }, t.intersection, some t.ourRangeCounter⟩

theorem sendFingerprint_spec (sh : Shared σ) (t : Target) (range : Range3d)
    (fingerprint : Fingerprint) (covers : Option Nat) :
    (t.sendFingerprint sh range fingerprint covers).1 = t.markOurNextRangePending.2 ∧
      Emits (· = t.fingerprintMessage range fingerprint covers) sh
        (t.sendFingerprint sh range fingerprint covers).2
        [t.fingerprintMessage range fingerprint covers] :=
  ⟨rfl, .send sh rfl fun _ _ h => by cases h⟩

/-! ## Announcing and sending entries -/

/-- The message for an entry, under the handle that its token gets. -/
def entryMessage (sh : Shared σ) (a : AuthorisedEntry) : ReconciliationSendEntry :=
  ⟨a.entry, a.entry.payloadLength, (sh.bindAndSendOurs a.token.capability).1, a.token.signature⟩

/-- An entry is sent after its token. -/
theorem sendEntry_spec (sh : Shared σ) (target : AoiIntersection) (a : AuthorisedEntry)
    (hP : P ⟨.sendEntry (entryMessage sh a), target, none⟩) :
    Emits P sh ((sh.bindAndSendOurs a.token.capability).2.send target
      (.sendEntry (entryMessage sh a)) none) [⟨.sendEntry (entryMessage sh a), target, none⟩] := by
  obtain ⟨hbind, hhandle⟩ := bindAndSendOurs_spec (P := P) sh a.token.capability
  refine ⟨?_, by simpa using hP, hbind.keeps.trans ⟨rfl, rfl, rfl, rfl, rfl, rfl, rfl, rfl⟩,
    hbind.sentTokens, hbind.mirrored, ?_⟩
  · show (sh.bindAndSendOurs a.token.capability).2.sent ++ _ = _
    rw [hbind.sent, List.append_nil]
  · intro hm s hs m heq
    obtain rfl := List.mem_singleton.mp hs
    obtain rfl := ReconciliationMessage.sendEntry.inj heq
    exact ⟨a.token.capability, a, hhandle hm, AuthorisedEntry.new_self a⟩

/-- The chunks of a payload are appended one by one. -/
theorem sendChunks_spec (target : AoiIntersection) (chunks : List Chunk) (sh : Shared σ)
    (hP : ∀ chunk, P ⟨.sendPayload chunk, target, none⟩) :
    Emits P sh (chunks.foldl (fun sh chunk => sh.send target (.sendPayload chunk) none) sh)
      (chunks.map fun chunk => ⟨.sendPayload chunk, target, none⟩) := by
  induction chunks generalizing sh with
  | nil => exact .refl sh
  | cons chunk rest ih =>
      have hsend : Emits P sh (sh.send target (.sendPayload chunk) none)
          [⟨.sendPayload chunk, target, none⟩] := .send sh (hP chunk) fun _ m hm => by cases hm
      exact hsend.trans (ih _)

variable [Storage σ]

/-- The message was sent for the entries of a range: it announces the range, or
carries one of its entries or a part of a payload. -/
def FromRange (store : σ) (target : AoiIntersection) (range : Range3d) (s : Sent) : Prop :=
  s.target = target ∧
    match s.message with
    | .sendFingerprint _ => False
    | .announceEntries m => m.range = range
    | .sendEntry m => ∃ entries a,
        Storage.getAuthorisedEntries store target.namespaceId range = .ok entries ∧
          .ok a ∈ entries ∧ a.entry = m.entry
    | .sendPayload _ => True
    | .terminatePayload _ => True

/-- The messages that carry the entries of an announced range, in full. A
payload is left out or sent with all its chunks. -/
inductive EntryBlock (store : σ) (target : AoiIntersection) :
    List AuthorisedEntry → List Sent → Prop
  | nil : EntryBlock store target [] []
  | cons {a : AuthorisedEntry} {rest : List AuthorisedEntry} {chunks : List Chunk}
      {messages : List Sent} (handle : Nat)
      (hchunks : chunks = [] ∨
        Storage.payloadChunks store a.entry.payloadDigest = .ok (some chunks))
      (hrest : EntryBlock store target rest messages) :
      EntryBlock store target (a :: rest)
        (⟨.sendEntry ⟨a.entry, a.entry.payloadLength, handle, a.token.signature⟩, target, none⟩ ::
          (chunks.map (fun chunk => ⟨.sendPayload chunk, target, none⟩) ++
            ⟨.terminatePayload rest.isEmpty, target, none⟩ :: messages))

theorem sendPayload_spec (sh : Shared σ) (target : AoiIntersection) (entry : Entry)
    (hP : ∀ chunk, P ⟨.sendPayload chunk, target, none⟩) :
    ∃ chunks, (chunks = [] ∨
        Storage.payloadChunks sh.store entry.payloadDigest = .ok (some chunks)) ∧
      Emits P sh (Target.sendPayload sh target entry).2
        (chunks.map fun chunk => ⟨.sendPayload chunk, target, none⟩) := by
  unfold Target.sendPayload
  split
  · split
    · exact ⟨[], Or.inl rfl, .refl sh⟩
    · exact ⟨[], Or.inl rfl, .refl sh⟩
    · rename_i chunks hchunks
      exact ⟨chunks, Or.inr hchunks, sendChunks_spec target chunks sh hP⟩
  · exact ⟨[], Or.inl rfl, .refl sh⟩

/-- The loop over the entries sends only what belongs to the entries; when it
returns, it has sent the whole block. -/
theorem sendEntries_spec (target : AoiIntersection) (entries : List (Except Error AuthorisedEntry))
    (sh : Shared σ) (hpayload : ∀ chunk, P ⟨.sendPayload chunk, target, none⟩)
    (hterminate : ∀ isFinal, P ⟨.terminatePayload isFinal, target, none⟩)
    (hentry : ∀ a, .ok a ∈ entries → ∀ m, m.entry = a.entry → P ⟨.sendEntry m, target, none⟩) :
    ∃ new, Emits P sh (Target.sendEntries target entries sh).2 new ∧
      ((Target.sendEntries target entries sh).1 = .ok () →
        ∃ as : List AuthorisedEntry, entries = as.map .ok ∧
          EntryBlock sh.store target as new) := by
  induction entries generalizing sh with
  | nil => exact ⟨[], .refl sh, fun _ => ⟨[], rfl, .nil⟩⟩
  | cons item rest ih =>
      cases item with
      | error e => exact ⟨[], .refl sh, fun h => by cases h⟩
      | ok a =>
          set sh₁ := (sh.bindAndSendOurs a.token.capability).2.send target
            (.sendEntry (entryMessage sh a)) none with hsh₁
          have hsend : Emits P sh sh₁ [⟨.sendEntry (entryMessage sh a), target, none⟩] :=
            sendEntry_spec sh target a (hentry a List.mem_cons_self _ rfl)
          obtain ⟨chunks, hchunks, hpay⟩ := sendPayload_spec sh₁ target a.entry hpayload
          simp only [Target.sendEntries]
          rw [show (sh.bindAndSendOurs a.token.capability).2.send target
            (.sendEntry ⟨_, _, _, _⟩) none = sh₁ from rfl]
          generalize Target.sendPayload sh₁ target a.entry = paid at hpay
          obtain ⟨res, sh₂⟩ := paid
          cases res with
          | error e => exact ⟨_, hsend.trans hpay, fun h => by cases h⟩
          | ok =>
              have hterm : Emits P sh₂ (sh₂.send target (.terminatePayload rest.isEmpty) none)
                  [⟨.terminatePayload rest.isEmpty, target, none⟩] :=
                .send sh₂ (hterminate _) fun _ m hm => by cases hm
              obtain ⟨new, hnew, hblock⟩ := ih (sh₂.send target (.terminatePayload rest.isEmpty) none)
                fun b hb => hentry b (List.mem_cons_of_mem _ hb)
              have hall := ((hsend.trans hpay).trans hterm).trans hnew
              refine ⟨_, hall, fun hok => ?_⟩
              obtain ⟨as, rfl, has⟩ := hblock hok
              -- the store has not changed since the start
              have hstore : sh₂.store = sh.store := (hsend.keeps.trans hpay.keeps).store
              refine ⟨a :: as, rfl, ?_⟩
              have hrest : EntryBlock sh.store target as new := hstore ▸ has
              have hblock := EntryBlock.cons (entryMessage sh a).staticTokenHandle
                (hsend.keeps.store ▸ hchunks) hrest
              simpa [entryMessage] using hblock

/-- The target after a range has been announced. -/
def Target.announced (t : Target) (wantResponse : Bool) : Target :=
  if wantResponse then t.markOurNextRangePending.2 else t

/-- The announcement of a range for a target. -/
def Target.announcement (t : Target) (range : Range3d) (isEmpty wantResponse : Bool)
    (covers : Option Nat) : Sent :=
  ⟨.announceEntries
    { range := range
      isEmpty := isEmpty
      wantResponse := wantResponse
      willSort := false
      senderHandle := t.intersection.ourHandle
      receiverHandle := t.intersection.theirHandle
      covers := covers }, t.intersection, if wantResponse then some t.ourRangeCounter else none⟩

/-- An announcement with all that follows it. -/
inductive Announces (store : σ) (t : Target) (range : Range3d) (wantResponse : Bool)
    (covers : Option Nat) (isEmpty : Bool) : List Sent → Prop
  | intro (entries : List AuthorisedEntry) (body : List Sent)
      (block : EntryBlock store t.intersection entries body)
      (hentries : (if isEmpty then .ok [] else
        Storage.getAuthorisedEntries store t.intersection.namespaceId range) =
          Except.ok (ε := Error) (entries.map .ok)) :
      Announces store t range wantResponse covers isEmpty
        (t.announcement range entries.isEmpty wantResponse covers :: body)

theorem announceAndSendEntries_eq (sh : Shared σ) (t : Target) (range : Range3d)
    (wantResponse : Bool) (covers : Option Nat) (isEmpty : Bool) :
    t.announceAndSendEntries sh range wantResponse covers isEmpty =
      match (if isEmpty then .ok [] else
          Storage.getAuthorisedEntries sh.store t.intersection.namespaceId range) with
      | .error e => (.error (.error e), sh)
      | .ok entries =>
          let m := t.announcement range entries.isEmpty wantResponse covers
          match Target.sendEntries t.intersection entries (sh.send m.target m.message m.opened) with
          | (.error e, sh) => (.error e, sh)
          | (.ok (), sh) => (.ok (t.announced wantResponse), sh) := by
  cases wantResponse <;> rfl

/-- Announcing a range sends what is from the range, and all of it when the
call returns. -/
theorem announceAndSendEntries_spec (sh : Shared σ) (t : Target) (range : Range3d)
    (wantResponse : Bool) (covers : Option Nat) (isEmpty : Bool) :
    ∃ new, Emits (FromRange sh.store t.intersection range) sh
        (t.announceAndSendEntries sh range wantResponse covers isEmpty).2 new ∧
      ∀ t', (t.announceAndSendEntries sh range wantResponse covers isEmpty).1 = .ok t' →
        t' = t.announced wantResponse ∧
          Announces sh.store t range wantResponse covers isEmpty new := by
  rw [announceAndSendEntries_eq]
  generalize hiter : (if isEmpty then .ok [] else
    Storage.getAuthorisedEntries sh.store t.intersection.namespaceId range) = iter
  cases iter with
  | error e => exact ⟨[], .refl sh, fun t' h => by cases h⟩
  | ok entries =>
      set m := t.announcement range entries.isEmpty wantResponse covers with hm
      have hannounce : Emits (FromRange sh.store t.intersection range) sh
          (sh.send m.target m.message m.opened) [m] :=
        .send sh ⟨rfl, rfl⟩ fun _ _ h => by cases h
      -- without an iterator there are no entries at all
      have hmem : ∀ a, .ok a ∈ entries → ∀ e, e = a.entry → ∃ entries a,
          Storage.getAuthorisedEntries sh.store t.intersection.namespaceId range = .ok entries ∧
            .ok a ∈ entries ∧ a.entry = e := by
        intro a ha e he
        cases isEmpty with
        | true =>
            obtain rfl := Except.ok.inj hiter
            cases ha
        | false => exact ⟨entries, a, hiter, ha, he.symm⟩
      obtain ⟨body, hbody, hblock⟩ := sendEntries_spec t.intersection entries
        (P := FromRange sh.store t.intersection range) (sh.send m.target m.message m.opened)
        (fun _ => ⟨rfl, trivial⟩) (fun _ => ⟨rfl, trivial⟩)
        (fun a ha message heq => ⟨rfl, hmem a ha message.entry heq⟩)
      dsimp only
      generalize Target.sendEntries t.intersection entries (sh.send m.target m.message m.opened) =
        sent at hbody hblock
      obtain ⟨res, sh'⟩ := sent
      cases res with
      | error e => exact ⟨_, hannounce.trans hbody, fun t' ht' => by cases ht'⟩
      | ok =>
          refine ⟨m :: body, hannounce.trans hbody, fun t' ht' => ?_⟩
          obtain rfl := Except.ok.inj ht'
          obtain ⟨as, rfl, has⟩ := hblock rfl
          rw [hm, isEmpty_map_ok]
          exact ⟨rfl, .intro as body has hiter⟩

/-! ## Answering a fingerprint -/

/-- The message was sent for a part of a split range. -/
def FromPart (store : σ) (target : AoiIntersection) (part : Range3d × SplitAction)
    (s : Sent) : Prop :=
  match part.2 with
  | .sendEntries _ => FromRange store target part.1 s
  | .sendFingerprint fingerprint => s.target = target ∧
      ∃ m, s.message = .sendFingerprint m ∧ m.range = part.1 ∧ m.fingerprint = fingerprint

/-- All parts of a split range, one after the other; the last one covers the
range with the given number. -/
inductive AnswersParts (store : σ) (rangeCount : Nat) :
    List (Range3d × SplitAction) → Target → Target → List Sent → Prop
  | nil {t : Target} : AnswersParts store rangeCount [] t t []
  | fingerprint {range : Range3d} {fingerprint : Fingerprint}
      {rest : List (Range3d × SplitAction)} {t t' : Target} {messages : List Sent}
      (hrest : AnswersParts store rangeCount rest t.markOurNextRangePending.2 t' messages) :
      AnswersParts store rangeCount ((range, .sendFingerprint fingerprint) :: rest) t t'
        (t.fingerprintMessage range fingerprint (if rest.isEmpty then some rangeCount else none) ::
          messages)
  | entries {range : Range3d} {count : Nat} {rest : List (Range3d × SplitAction)}
      {t t' : Target} {piece messages : List Sent}
      (hpiece : Announces store t range true (if rest.isEmpty then some rangeCount else none)
        (count == 0) piece)
      (hrest : AnswersParts store rangeCount rest t.markOurNextRangePending.2 t' messages) :
      AnswersParts store rangeCount ((range, .sendEntries count) :: rest) t t' (piece ++ messages)

/-- The loop over the parts sends what is from the parts, and all of it when it
returns. -/
theorem answerParts_spec (rangeCount : Nat)
    (items : List (Except Error (Range3d × SplitAction))) (sh : Shared σ) (t : Target) :
    ∃ new, Emits (fun s => ∃ part, .ok part ∈ items ∧ FromPart sh.store t.intersection part s) sh
        (Target.answerParts rangeCount items sh t).2 new ∧
      ∀ t', (Target.answerParts rangeCount items sh t).1 = .ok t' →
        ∃ parts : List (Range3d × SplitAction), items = parts.map .ok ∧
          AnswersParts sh.store rangeCount parts t t' new := by
  induction items generalizing sh t with
  | nil =>
      refine ⟨[], .refl sh, fun t' h => ⟨[], rfl, ?_⟩⟩
      obtain rfl := Except.ok.inj h
      exact .nil
  | cons item rest ih =>
      cases item with
      | error e => exact ⟨[], .refl sh, fun t' h => by cases h⟩
      | ok part =>
          obtain ⟨range, action⟩ := part
          -- the rest is answered for the same intersection, out of the same store
          have hrest : ∀ {sh₁ sh₂ : Shared σ} {new : List Sent}, sh₁.store = sh.store →
              Emits (fun s => ∃ part, .ok part ∈ rest ∧
                FromPart sh₁.store t.intersection part s) sh₁ sh₂ new →
              Emits (fun s => ∃ part, .ok part ∈ .ok (range, action) :: rest ∧
                FromPart sh.store t.intersection part s) sh₁ sh₂ new := by
            intro sh₁ sh₂ new hstore h
            refine h.mono fun s _ hs => ?_
            obtain ⟨part, hmem, hpart⟩ := hs
            exact ⟨part, List.mem_cons_of_mem _ hmem, hstore ▸ hpart⟩
          cases action with
          | sendFingerprint fingerprint =>
              let covers := if rest.isEmpty then some rangeCount else none
              obtain ⟨-, hsend⟩ := sendFingerprint_spec sh t range fingerprint covers
              obtain ⟨new, hnew, hok⟩ := ih (t.sendFingerprint sh range fingerprint covers).2
                t.markOurNextRangePending.2
              refine ⟨t.fingerprintMessage range fingerprint covers :: new,
                (hsend.mono fun s _ hs => ?_).trans (hrest hsend.keeps.store hnew),
                fun t' ht' => ?_⟩
              · exact ⟨_, List.mem_cons_self, hs ▸ ⟨rfl, _, rfl, rfl, rfl⟩⟩
              · obtain ⟨parts, rfl, hparts⟩ := hok t' ht'
                refine ⟨(range, .sendFingerprint fingerprint) :: parts, rfl, ?_⟩
                simp only [covers, isEmpty_map_ok]
                exact .fingerprint (hsend.keeps.store ▸ hparts)
          | sendEntries count =>
              let covers := if rest.isEmpty then some rangeCount else none
              obtain ⟨piece, hpiece, hannounced⟩ :=
                announceAndSendEntries_spec sh t range true covers (count == 0)
              rw [Target.answerParts]
              generalize t.announceAndSendEntries sh range true covers (count == 0) = announced
                at hpiece hannounced
              obtain ⟨res, sh'⟩ := announced
              cases res with
              | error e =>
                  exact ⟨piece, hpiece.mono fun s _ hs => ⟨_, List.mem_cons_self, hs⟩,
                    fun t' ht' => by cases ht'⟩
              | ok t₁ =>
                  obtain ⟨rfl, hpieces⟩ := hannounced t₁ rfl
                  obtain ⟨new, hnew, hok⟩ := ih sh' t.markOurNextRangePending.2
                  refine ⟨piece ++ new, (hpiece.mono fun s _ hs => ⟨_, List.mem_cons_self, hs⟩).trans
                    (hrest hpiece.keeps.store hnew), fun t' ht' => ?_⟩
                  obtain ⟨parts, rfl, hparts⟩ := hok t' ht'
                  refine ⟨(range, .sendEntries count) :: parts, rfl, .entries ?_ ?_⟩
                  · simpa only [covers, isEmpty_map_ok] using hpieces
                  · exact hpiece.keeps.store ▸ hparts

/-- The message was sent in answer to the fingerprint of a range. -/
def FromAnswer (store : σ) (target : AoiIntersection) (range : Range3d) (s : Sent) : Prop :=
  FromRange store target range s ∨
    ∃ part, .ok part ∈ Storage.splitRange store target.namespaceId range {} ∧
      FromPart store target part s

/-- The three answers to a fingerprint, when ours is `ours`. -/
inductive Answers (store : σ) (t : Target) (message : ReconciliationSendFingerprint)
    (rangeCount : Nat) (ours : Fingerprint) : Target → List Sent → Prop
  | matching {new : List Sent} (heq : ours = message.fingerprint)
      (hnew : Announces store t message.range false (some rangeCount) true new) :
      Answers store t message rangeCount ours t new
  | empty {new : List Sent} (hne : ours ≠ message.fingerprint)
      (hempty : message.fingerprint.isEmpty = true)
      (hnew : Announces store t message.range true (some rangeCount) false new) :
      Answers store t message rangeCount ours t.markOurNextRangePending.2 new
  | split {parts : List (Range3d × SplitAction)} {t' : Target} {new : List Sent}
      (hne : ours ≠ message.fingerprint)
      (hparts : Storage.splitRange store t.intersection.namespaceId message.range {} =
        parts.map .ok)
      (hnew : AnswersParts store rangeCount parts t t' new) :
      Answers store t message rangeCount ours t' new

theorem AnswersParts.intersection {store : σ} {rangeCount : Nat}
    {parts : List (Range3d × SplitAction)} {t t' : Target} {new : List Sent}
    (h : AnswersParts store rangeCount parts t t' new) : t'.intersection = t.intersection := by
  induction h with
  | nil => rfl
  | fingerprint _ ih => exact ih
  | entries _ _ ih => exact ih

theorem Answers.intersection {store : σ} {t t' : Target}
    {message : ReconciliationSendFingerprint} {rangeCount : Nat} {ours : Fingerprint}
    {new : List Sent} (h : Answers store t message rangeCount ours t' new) :
    t'.intersection = t.intersection := by
  cases h with
  | matching _ _ => rfl
  | empty _ _ _ => rfl
  | split _ _ hnew => exact hnew.intersection

/-- Answering a fingerprint: nothing happens when our own cannot be computed;
otherwise the range is noted as answered and one of the answers is sent. -/
theorem answerFingerprint_spec (sh : Shared σ) (t : Target)
    (message : ReconciliationSendFingerprint) (rangeCount : Nat) :
    (∃ e, t.answerFingerprint sh message rangeCount = (.error e, sh)) ∨
      ∃ ours new,
        Storage.fingerprint sh.store t.intersection.namespaceId message.range = .ok ours ∧
        Emits (FromAnswer sh.store t.intersection message.range)
          { sh with answered := sh.answered ++ [(t.intersection, message.range)] }
          (t.answerFingerprint sh message rangeCount).2 new ∧
        ∀ t', (t.answerFingerprint sh message rangeCount).1 = .ok t' →
          Answers sh.store t message rangeCount ours t' new := by
  unfold Target.answerFingerprint
  cases hfp : Storage.fingerprint sh.store t.intersection.namespaceId message.range with
  | error e => exact Or.inl ⟨_, rfl⟩
  | ok ours =>
      refine Or.inr ⟨ours, ?_⟩
      dsimp only
      set sh₁ : Shared σ :=
        { sh with answered := sh.answered ++ [(t.intersection, message.range)] } with hsh₁
      split
      · rename_i heq
        obtain ⟨new, hnew, hok⟩ :=
          announceAndSendEntries_spec sh₁ t message.range false (some rangeCount) true
        refine ⟨new, rfl, hnew.mono fun s _ => Or.inl, fun t' ht' => ?_⟩
        obtain ⟨rfl, hann⟩ := hok t' ht'
        exact .matching heq hann
      · rename_i hne
        split
        · rename_i hempty
          obtain ⟨new, hnew, hok⟩ :=
            announceAndSendEntries_spec sh₁ t message.range true (some rangeCount) false
          refine ⟨new, rfl, hnew.mono fun s _ => Or.inl, fun t' ht' => ?_⟩
          obtain ⟨rfl, hann⟩ := hok t' ht'
          exact .empty hne hempty hann
        · obtain ⟨new, hnew, hok⟩ := answerParts_spec rangeCount
            (Storage.splitRange sh₁.store t.intersection.namespaceId message.range {}) sh₁ t
          refine ⟨new, rfl, hnew.mono fun s _ => Or.inr, fun t' ht' => ?_⟩
          obtain ⟨parts, hparts, hanswers⟩ := hok t' ht'
          exact .split hne hparts hanswers

theorem receivedSendFingerprint_intersection {sh : Shared σ} {t t' : Target}
    {message : ReconciliationSendFingerprint}
    (h : (t.receivedSendFingerprint sh message).1 = .ok t') :
    t'.intersection = t.intersection := by
  unfold Target.receivedSendFingerprint at h
  split at h
  · cases h
  · rename_i t₁ hbegin
    have hi : t₁.intersection = t.intersection := by rw [(beginReceive_ok hbegin).1]
    rcases answerFingerprint_spec sh t₁.nextRangeCountTheirs.2 message t₁.nextRangeCountTheirs.1
      with ⟨e, heq⟩ | ⟨ours, new, -, -, hok⟩
    · dsimp only at h
      rw [heq] at h
      cases h
    · exact (hok t' h).intersection.trans hi

theorem receivedAnnounceEntries_intersection {sh : Shared σ} {t t' : Target}
    {message : ReconciliationAnnounceEntries}
    (h : (t.receivedAnnounceEntries sh message).1 = .ok t') :
    t'.intersection = t.intersection := by
  unfold Target.receivedAnnounceEntries at h
  split at h
  · cases h
  · rename_i t₁ hbegin
    have hi : t₁.intersection = t.intersection := by rw [(beginReceive_ok hbegin).1]
    split at h
    · obtain ⟨new, -, hok⟩ := announceAndSendEntries_spec sh t₁.nextRangeCountTheirs.2
        message.range false (some t₁.nextRangeCountTheirs.1) false
      rw [(hok t' h).1]
      exact hi
    · obtain rfl := Except.ok.inj h
      exact hi

/-- A new target: Alfie sends the fingerprint of its range. -/
theorem init_cases [WillowDataModel] (sh : Shared σ) (intersection : AoiIntersection) :
    (∃ e, Target.init sh intersection = (.error e, sh)) ∨
      Target.init sh intersection = (.ok { intersection := intersection }, sh) ∨
      ∃ range fingerprint, sh.ourRole = .alfie ∧ intersection.area.toRange = some range ∧
        Storage.fingerprint sh.store intersection.namespaceId range = .ok fingerprint ∧
        Target.init sh intersection =
          (.ok (Target.markOurNextRangePending { intersection := intersection }).2,
            (Target.sendFingerprint sh { intersection := intersection } range fingerprint
              none).2) := by
  unfold Target.init
  dsimp only
  split
  · exact Or.inr (Or.inl rfl)
  · rename_i hrole
    split
    · exact Or.inl ⟨_, rfl⟩
    · rename_i range hrange
      split
      · exact Or.inl ⟨_, rfl⟩
      · rename_i fingerprint hfp
        exact Or.inr (Or.inr ⟨range, fingerprint, hrole, hrange, hfp, rfl⟩)

theorem init_intersection [WillowDataModel] {sh sh' : Shared σ} {i : AoiIntersection}
    {t : Target} (h : Target.init sh i = (.ok t, sh')) : t.intersection = i := by
  rcases init_cases sh i with ⟨e, heq⟩ | heq | ⟨range, fp, -, -, -, heq⟩
  · rw [heq] at h
    cases h
  all_goals
    rw [heq] at h
    obtain rfl := Except.ok.inj (Prod.mk.inj h).1
    rfl

end Model

end IrohWillow.Reconciler
