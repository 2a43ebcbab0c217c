import IrohWillow.Session.Data
import IrohWillow.Session.Framing
import IrohWillow.Session.IdealStore

/-!
# The framing of live data

On the data channel an entry is followed by the chunks of its payload, and
nothing marks the last chunk: the receiver takes a payload for complete when it
has received as many bytes as the payload is long. The chunks are those of the
verifiable stream of the blob, which may be longer than the payload, and there
are none when the blob is not found.
-/

namespace IrohWillow

open Reconciler

/-- The number of bytes in a list of chunks. -/
def totalLength (chunks : List Chunk) : Nat := (chunks.map List.length).sum

/-! ## The sender -/

section Sender

variable {σ : Type} [Meadowcap] [Storage σ]

/-- Send entries one after the other, each with the store as it is then. -/
def DataSender.sendAll (sh : Shared σ) : List (AuthorisedEntry × σ) → Shared σ × List DataMessage
  | [] => (sh, [])
  | (a, store) :: rest =>
      match DataSender.sendEntry { sh with store := store } a with
      | (.error _, sh, messages) => (sh, messages)
      | (.ok (), sh, messages) =>
          ((DataSender.sendAll sh rest).1, messages ++ (DataSender.sendAll sh rest).2)

/-- The chunks that are sent for an entry. -/
def DataSender.chunksOf (store : σ) (entry : Entry) : List Chunk :=
  match Storage.payloadChunks store entry.payloadDigest with
  | .ok (some chunks) => chunks
  | _ => []

end Sender

/-- An entry message and the chunks that follow it. -/
structure LiveBlock where
  message : DataSendEntry
  chunks : List Chunk
  deriving DecidableEq

namespace LiveBlock

/-- The messages of a block. -/
def messages (b : LiveBlock) : List DataMessage :=
  .sendEntry b.message :: b.chunks.map .sendPayload

/-- The entry and the chunks of its payload. -/
def payload (b : LiveBlock) : Entry × List Chunk := (b.message.entry, b.chunks)

theorem length_messages (b : LiveBlock) : b.messages.length = b.chunks.length + 1 := by
  simp [messages]

/-- The token of the block is among `tokens` and authorises its entry. -/
def Redeemable [Meadowcap] (tokens : List StaticToken) (b : LiveBlock) : Prop :=
  ∃ token a, tokens[b.message.staticTokenHandle]? = some token ∧
    AuthorisedEntry.new b.message.entry ⟨token, b.message.dynamicToken⟩ = some a

end LiveBlock

section Sends

variable {σ : Type} [Meadowcap] [Storage σ]

/-- Sending one entry: a block whose token was sent. -/
theorem sendEntry_block (hlaw : Storage.NeverFails σ) (sh : Shared σ) (hm : sh.Mirrored)
    (a : AuthorisedEntry) :
    ∃ sh' block, DataSender.sendEntry sh a = (.ok (), sh', LiveBlock.messages block) ∧
      block.message.entry = a.entry ∧ block.message.offset = 0 ∧
      block.chunks = DataSender.chunksOf sh.store a.entry ∧ sh'.Mirrored ∧
      sh.sentTokens <+: sh'.sentTokens ∧ block.Redeemable sh'.sentTokens := by
  obtain ⟨hbind, hhandle⟩ := bindAndSendOurs_spec (P := fun _ => True) sh a.token.capability
  have hred : (LiveBlock.mk ⟨a.entry, (sh.bindAndSendOurs a.token.capability).1,
      a.token.signature, 0⟩ (DataSender.chunksOf sh.store a.entry)).Redeemable
        (sh.bindAndSendOurs a.token.capability).2.sentTokens :=
    ⟨a.token.capability, a, hhandle hm, AuthorisedEntry.new_self a⟩
  refine ⟨(sh.bindAndSendOurs a.token.capability).2, _, ?_, rfl, rfl, rfl, hbind.mirrored hm,
    hbind.sentTokens, hred⟩
  unfold DataSender.sendEntry DataSender.chunksOf
  rw [← hbind.keeps.store]
  obtain ⟨chunks, hchunks⟩ :=
    hlaw.payload (sh.bindAndSendOurs a.token.capability).2.store a.entry.payloadDigest
  dsimp only
  rw [hchunks]
  cases chunks <;> rfl

/-- What an honest sender sends: one block for each entry, and their tokens. -/
theorem sendAll_blocks (hlaw : Storage.NeverFails σ) (sends : List (AuthorisedEntry × σ))
    (sh : Shared σ) (hm : sh.Mirrored) :
    ∃ blocks : List LiveBlock,
      (DataSender.sendAll sh sends).2 = blocks.flatMap LiveBlock.messages ∧
      blocks.map LiveBlock.payload =
        sends.map (fun s => (s.1.entry, DataSender.chunksOf s.2 s.1.entry)) ∧
      sh.sentTokens <+: (DataSender.sendAll sh sends).1.sentTokens ∧
      ∀ b ∈ blocks, b.message.offset = 0 ∧
        b.Redeemable (DataSender.sendAll sh sends).1.sentTokens := by
  induction sends generalizing sh with
  | nil => exact ⟨[], rfl, rfl, List.prefix_refl _, by simp⟩
  | cons send rest ih =>
      obtain ⟨a, store⟩ := send
      obtain ⟨sh', block, hsend, hentry, hoffset, hchunks, hm', hle, hred⟩ :=
        sendEntry_block hlaw { sh with store := store } hm a
      obtain ⟨blocks, hmessages, hmap, hle', hblocks⟩ := ih sh' hm'
      have hall : DataSender.sendAll sh ((a, store) :: rest) =
          ((DataSender.sendAll sh' rest).1,
            block.messages ++ (DataSender.sendAll sh' rest).2) := by
        simp only [DataSender.sendAll, hsend]
      rw [hall]
      refine ⟨block :: blocks, ?_, ?_, hle.trans hle', ?_⟩
      · rw [hmessages]
        rfl
      · rw [List.map_cons, List.map_cons, hmap, LiveBlock.payload, hentry, hchunks]
      · intro b hb
        rcases List.mem_cons.mp hb with rfl | hb
        · refine ⟨hoffset, ?_⟩
          obtain ⟨token, a', hget, hnew⟩ := hred
          obtain ⟨tail, htail⟩ := hle'
          have hlt := (List.getElem?_eq_some_iff.mp hget).1
          refine ⟨token, a', ?_, hnew⟩
          rw [← htail, List.getElem?_append_left hlt]
          exact hget
        · exact hblocks b hb

end Sends

/-! ## The receiver -/

namespace DataReceiver

section Model

variable {σ : Type} [Meadowcap] [Storage σ]

/-- The messages are handled one after the other; `none` while a static token is
missing. -/
def receive (d : DataReceiver) (sh : Shared σ) :
    List DataMessage → Option (Except Failure DataReceiver × Shared σ)
  | [] => some (.ok d, sh)
  | message :: rest =>
      match d.onMessage sh message with
      | none => none
      | some (.error e, sh) => some (.error e, sh)
      | some (.ok d, sh) => receive d sh rest

/-- The payload that is being received, with the chunks that were attributed to
it. -/
def inProgress (d : DataReceiver) : Option (PayloadDigest × List Chunk) :=
  d.currentPayload.inner.map fun state => (state.payloadDigest, state.writer.getD [])

theorem receive_append {d d' : DataReceiver} {sh sh' : Shared σ} {l l' : List DataMessage}
    (h : d.receive sh l = some (.ok d', sh')) :
    d.receive sh (l ++ l') = d'.receive sh' l' := by
  induction l generalizing d sh with
  | nil =>
      obtain ⟨hd, rfl⟩ := Prod.mk.inj (Option.some.inj h)
      obtain rfl := Except.ok.inj hd
      rfl
  | cons message rest ih =>
      simp only [receive] at h
      simp only [List.cons_append, receive]
      split at h
      · cases h
      · cases h
      · exact ih h

end Model

/-- What a receiver should have in progress after a number of messages: the
payload whose entry has come, until the last of its chunks. -/
def expected : List (Entry × List Chunk) → Nat → Option (PayloadDigest × List Chunk)
  | [], _ => none
  | (entry, chunks) :: rest, n =>
      if n = 0 then none
      else if n ≤ chunks.length ∨ chunks = [] ∧ n = 1 then
        some (entry.payloadDigest, chunks.take (n - 1))
      else expected rest (n - (chunks.length + 1))

/-- The declared length of the payload is reached by the last of its chunks, if
there are any, and not before, and the chunks can be imported. -/
structure Recognisable (σ : Type) [Meadowcap] [Storage σ] (entry : Entry)
    (chunks : List Chunk) : Prop where
  short : ∀ i, 0 < i → i < chunks.length →
    totalLength (chunks.take i) < entry.payloadLength.val
  full : chunks ≠ [] → entry.payloadLength.val ≤ totalLength chunks
  importable : Importable σ entry chunks

/-- The ends of all payloads can be recognised, and only after the last entry
there may be no chunk at all. -/
def WellDelimited (σ : Type) [Meadowcap] [Storage σ] : List (Entry × List Chunk) → Prop
  | [] => True
  | [(entry, chunks)] => Recognisable σ entry chunks
  | (entry, chunks) :: next :: rest =>
      chunks ≠ [] ∧ Recognisable σ entry chunks ∧ WellDelimited σ (next :: rest)

section Receiver

variable {σ : Type} [Meadowcap] [Storage σ]

/-- The state after the entry of a block and some of its chunks. -/
def during (b : LiveBlock) (i : Nat) : DataReceiver :=
  ⟨⟨some
    { payloadDigest := b.message.entry.payloadDigest
      expectedLength := b.message.entry.payloadLength.val
      receivedLength := totalLength (b.chunks.take i)
      totalLength := b.message.entry.payloadLength
      offset := 0
      writer := if i = 0 then none else some (b.chunks.take i) }⟩⟩

/-- A block that the receiver can authorise. -/
structure Acceptable (sh : Shared σ) (b : LiveBlock) : Prop where
  offset : b.message.offset = 0
  authorised : ∃ a, sh.staticTokens.authoriseEntryEventually b.message.entry
    b.message.staticTokenHandle b.message.dynamicToken = .ready (some a)

/-- The tokens do not change while data is received. -/
theorem staticTokens_onMessage {d : DataReceiver} {sh sh' : Shared σ} {message : DataMessage}
    {res : Except Failure DataReceiver} (h : d.onMessage sh message = some (res, sh')) :
    sh'.staticTokens = sh.staticTokens := by
  obtain ⟨store, new, rfl, -⟩ := onMessage_cases h
  rfl

omit [Storage σ] in
theorem Acceptable.of_tokens {sh sh' : Shared σ} {b : LiveBlock} (h : Acceptable sh b)
    (htokens : sh'.staticTokens = sh.staticTokens) : Acceptable sh' b :=
  ⟨h.offset, htokens ▸ h.authorised⟩

/-- An entry after a finished payload. -/
theorem onMessage_entry (hlaw : Storage.NeverFails σ) {sh : Shared σ} {b : LiveBlock}
    (hb : Acceptable sh b) :
    ∃ sh', DataReceiver.onMessage {} sh (.sendEntry b.message) = some (.ok (during b 0), sh') := by
  obtain ⟨a, ha⟩ := hb.authorised
  have hentry := (StaticTokens.authoriseEntryEventually_ready ha).2.1
  obtain ⟨inserted, hingest⟩ := hlaw.ingest sh.store a (.remote sh.sessionId)
  have hstored : Storage.ingestEntry sh.store a (.remote sh.sessionId) =
      (.ok inserted, (Storage.ingestEntry sh.store a (.remote sh.sessionId)).2) :=
    Prod.ext hingest rfl
  have hset : CurrentPayload.set {} a.entry.payloadDigest a.entry.payloadLength none
      (some b.message.offset) = .ok (during b 0).currentPayload := by
    rw [hentry, hb.offset]
    simp [CurrentPayload.set, during, totalLength]
  show ∃ sh', DataReceiver.onSendEntry {} sh b.message = _
  unfold onSendEntry
  simp only [CurrentPayload.ensureNone, CurrentPayload.isActive, ha]
  rw [hstored]
  simp only [hset]
  exact ⟨_, rfl⟩

/-- An entry while another payload is expected. -/
theorem onMessage_entry_pending (hlaw : Storage.NeverFails σ) {sh : Shared σ} {b b' : LiveBlock}
    (hb : Acceptable sh b') :
    ∃ e sh', (during b 0).onMessage sh (.sendEntry b'.message) = some (.error e, sh') := by
  obtain ⟨a, ha⟩ := hb.authorised
  obtain ⟨inserted, hingest⟩ := hlaw.ingest sh.store a (.remote sh.sessionId)
  have hstored : Storage.ingestEntry sh.store a (.remote sh.sessionId) =
      (.ok inserted, (Storage.ingestEntry sh.store a (.remote sh.sessionId)).2) :=
    Prod.ext hingest rfl
  show ∃ e sh', (during b 0).onSendEntry sh b'.message = _
  unfold onSendEntry
  simp only [CurrentPayload.ensureNone, CurrentPayload.isActive, during, ha]
  simp only [if_true, Option.isSome_none, Bool.false_eq_true, if_false]
  rw [hstored]
  exact ⟨_, _, rfl⟩

omit [Meadowcap] in
/-- The next chunk is handed to the writer of the payload. -/
theorem recvChunk_during {b : LiveBlock} {i : Nat} (hi : i < b.chunks.length) :
    (during b i).currentPayload.recvChunk b.chunks[i] =
      .ok (during b (i + 1)).currentPayload := by
  have htake : b.chunks.take (i + 1) = b.chunks.take i ++ [b.chunks[i]] := by
    rw [List.take_add_one, List.getElem?_eq_getElem hi]
    rfl
  have hwriter : (if i = 0 then none else some (b.chunks.take i)).getD [] = b.chunks.take i := by
    cases i with
    | zero => rfl
    | succ i => rfl
  simp only [CurrentPayload.recvChunk, during, hwriter, htake, Nat.add_one_ne_zero, if_false,
    totalLength, List.map_append, List.sum_append, List.map_cons, List.map_nil, List.sum_singleton]

/-- A chunk that does not complete the payload. -/
theorem onMessage_chunk (sh : Shared σ) {b : LiveBlock} {i : Nat} (hi : i < b.chunks.length)
    (hshort : totalLength (b.chunks.take (i + 1)) < b.message.entry.payloadLength.val) :
    (during b i).onMessage sh (.sendPayload b.chunks[i]) = some (.ok (during b (i + 1)), sh) := by
  have hincomplete : (during b (i + 1)).currentPayload.isComplete = false := by
    simpa [CurrentPayload.isComplete, during] using hshort
  show some ((during b i).onSendPayload sh b.chunks[i]) = _
  unfold onSendPayload
  rw [recvChunk_during hi]
  simp only [hincomplete]
  rfl

/-- A chunk that completes the payload: it is finalized with what has come. -/
theorem onMessage_chunk_complete (sh : Shared σ) {b : LiveBlock} {i : Nat}
    (hi : i < b.chunks.length)
    (hfull : b.message.entry.payloadLength.val ≤ totalLength (b.chunks.take (i + 1))) :
    ∃ res sh', (during b i).onMessage sh (.sendPayload b.chunks[i]) = some (res, sh') ∧
      (∀ d, res = .ok d → d = {}) ∧
      ((Storage.importChunks sh.store b.message.entry.payloadDigest
        b.message.entry.payloadLength (b.chunks.take (i + 1))).1 = .ok () ↔ res = .ok {}) := by
  have hcomplete : (during b (i + 1)).currentPayload.isComplete = true := by
    simpa [CurrentPayload.isComplete, during] using hfull
  show ∃ res sh', some ((during b i).onSendPayload sh b.chunks[i]) = some (res, sh') ∧ _
  unfold onSendPayload
  rw [recvChunk_during hi]
  simp only [hcomplete, if_true]
  simp only [CurrentPayload.finalize, during, Nat.add_one_ne_zero, if_false]
  cases himport : Storage.importChunks sh.store b.message.entry.payloadDigest
      b.message.entry.payloadLength (b.chunks.take (i + 1)) with
  | mk res store =>
      cases res with
      | error e =>
          refine ⟨_, _, rfl, ?_, ?_, ?_⟩
          · intro d hd
            cases hd
          · intro hok
            cases hok
          · intro hok
            cases hok
      | ok =>
          refine ⟨_, _, rfl, ?_, fun _ => rfl, fun _ => rfl⟩
          intro d hd
          exact (Except.ok.inj hd).symm

/-! ## Whole blocks -/

/-- The beginning of a block that has no early end is received. -/
theorem receive_during (hlaw : Storage.NeverFails σ) {sh : Shared σ} {b : LiveBlock}
    (hb : Acceptable sh b) {i : Nat} (hi : i ≤ b.chunks.length)
    (hshort : ∀ j, 0 < j → j ≤ i →
      totalLength (b.chunks.take j) < b.message.entry.payloadLength.val) :
    ∃ sh', DataReceiver.receive {} sh
        (.sendEntry b.message :: (b.chunks.take i).map .sendPayload) =
      some (.ok (during b i), sh') ∧ sh'.staticTokens = sh.staticTokens := by
  induction i with
  | zero =>
      obtain ⟨sh', hentry⟩ := onMessage_entry hlaw hb
      refine ⟨sh', ?_, staticTokens_onMessage hentry⟩
      simp only [receive, hentry]
      rfl
  | succ i ih =>
      obtain ⟨sh', hrecv, htokens⟩ := ih (by omega) fun j hpos hle => hshort j hpos (by omega)
      have hchunk := onMessage_chunk sh' hi (hshort (i + 1) (by omega) le_rfl)
      have htake : b.chunks.take (i + 1) = b.chunks.take i ++ [b.chunks[i]] := by
        rw [List.take_add_one, List.getElem?_eq_getElem hi]
        rfl
      refine ⟨sh', ?_, htokens⟩
      rw [htake, List.map_append, ← List.cons_append, receive_append hrecv]
      simp only [List.map_cons, List.map_nil, receive, hchunk]

/-- A whole block is received, and the payload is finalized. -/
theorem receive_block (hlaw : Storage.NeverFails σ) {sh : Shared σ} {b : LiveBlock}
    (hb : Acceptable sh b) (hne : b.chunks ≠ [])
    (hrec : Recognisable σ b.message.entry b.chunks) :
    ∃ sh', DataReceiver.receive {} sh b.messages = some (.ok {}, sh') ∧
      sh'.staticTokens = sh.staticTokens := by
  obtain ⟨i, hi⟩ := Nat.exists_eq_add_one_of_ne_zero
    (fun h => hne (List.length_eq_zero_iff.mp h) : b.chunks.length ≠ 0)
  have hlt : i < b.chunks.length := by omega
  obtain ⟨sh₁, hrecv, htokens⟩ := receive_during hlaw hb (i := i) (by omega)
    fun j hpos hle => hrec.short j hpos (by omega)
  have hall : b.chunks.take (i + 1) = b.chunks := by rw [← hi, List.take_length]
  have hsplit : b.chunks = b.chunks.take i ++ [b.chunks[i]] := by
    conv_lhs => rw [← hall, List.take_add_one, List.getElem?_eq_getElem hlt]
    rfl
  obtain ⟨res, sh₂, hchunk, -, hok⟩ := onMessage_chunk_complete sh₁ hlt
    (by rw [hall]; exact hrec.full hne)
  rw [hall] at hok
  rw [hok.mp (hrec.importable.resolve_left hne sh₁.store)] at hchunk
  refine ⟨sh₂, ?_, (staticTokens_onMessage hchunk).trans htokens⟩
  show DataReceiver.receive {} sh (.sendEntry b.message :: b.chunks.map .sendPayload) = _
  conv_lhs => rw [hsplit, List.map_append, ← List.cons_append]
  rw [receive_append hrecv]
  simp only [List.map_cons, List.map_nil, receive, hchunk]

/-- The messages are accepted one by one, each chunk is attributed to the entry it
was sent for, and a payload is finalized exactly after its last chunk. -/
def Framed (sh : Shared σ) (messages : List DataMessage) (sends : List (Entry × List Chunk)) :
    Prop :=
  ∀ n ≤ messages.length, ∃ d sh',
    DataReceiver.receive {} sh (messages.take n) = some (.ok d, sh') ∧
      d.inProgress = expected sends n

omit [Meadowcap] in
theorem take_block (b : LiveBlock) (l : List DataMessage) {i : Nat} (hi : i ≤ b.chunks.length) :
    (b.messages ++ l).take (i + 1) =
      .sendEntry b.message :: (b.chunks.take i).map .sendPayload := by
  rw [List.take_append_of_le_length (by rw [b.length_messages]; omega)]
  simp [LiveBlock.messages, List.map_take]

omit [Meadowcap] in
theorem inProgress_during (b : LiveBlock) (i : Nat) :
    (during b i).inProgress = some (b.message.entry.payloadDigest, b.chunks.take i) := by
  cases i with
  | zero => rfl
  | succ i => rfl

theorem Framed.of_wellDelimited (hlaw : Storage.NeverFails σ) {blocks : List LiveBlock}
    {sh : Shared σ} (hb : ∀ b ∈ blocks, Acceptable sh b)
    (h : WellDelimited σ (blocks.map LiveBlock.payload)) :
    Framed sh (blocks.flatMap LiveBlock.messages) (blocks.map LiveBlock.payload) := by
  induction blocks generalizing sh with
  | nil =>
      intro n _
      exact ⟨{}, sh, by simp [receive], rfl⟩
  | cons b rest ih =>
      have hrec : Recognisable σ b.message.entry b.chunks := by
        cases rest with
        | nil => exact h
        | cons b' rest => exact h.2.1
      have hrest : WellDelimited σ (rest.map LiveBlock.payload) := by
        cases rest with
        | nil => trivial
        | cons b' rest => exact h.2.2
      have hacc := hb b List.mem_cons_self
      intro n hn
      rw [List.flatMap_cons] at hn ⊢
      rw [List.length_append, b.length_messages] at hn
      cases n with
      | zero => exact ⟨{}, sh, by simp [receive], by simp [LiveBlock.payload, expected, inProgress]⟩
      | succ i =>
          -- the prefix ends in the first block, or goes on into the rest
          by_cases hin : i + 1 ≤ b.chunks.length ∨ b.chunks = [] ∧ i + 1 = 1
          · have hle : i ≤ b.chunks.length := by omega
            obtain ⟨sh', hrecv, -⟩ := receive_during hlaw hacc hle fun j hpos hji => by
              rcases hin with hin | ⟨-, hi⟩
              · exact hrec.short j hpos (by omega)
              · omega
            refine ⟨during b i, sh', ?_, ?_⟩
            · rw [take_block b _ hle]
              exact hrecv
            · rw [inProgress_during]
              simp only [List.map_cons, LiveBlock.payload, expected, Nat.add_one_ne_zero, if_false,
                if_pos hin, Nat.add_sub_cancel]
          · have hne : b.chunks ≠ [] := by
              intro hnil
              cases rest with
              | nil =>
                  simp only [hnil, List.flatMap_nil, List.length_nil] at hn
                  exact hin (Or.inr ⟨hnil, by omega⟩)
              | cons b' rest => exact h.1 hnil
            obtain ⟨sh', hrecv, htokens⟩ := receive_block hlaw hacc hne hrec
            obtain ⟨d, sh'', hrecv', hd⟩ := ih
              (fun b' hb' => (hb b' (List.mem_cons_of_mem _ hb')).of_tokens htokens) hrest
              (i + 1 - (b.chunks.length + 1)) (by omega)
            refine ⟨d, sh'', ?_, ?_⟩
            · rw [List.take_append, List.take_of_length_le (by rw [b.length_messages]; omega),
                b.length_messages, receive_append hrecv]
              exact hrecv'
            · rw [hd]
              simp only [List.map_cons, LiveBlock.payload, expected, Nat.add_one_ne_zero, if_false,
                if_neg hin]

omit [Meadowcap] in
theorem expected_zero (l : List (Entry × List Chunk)) : expected l 0 = none := by
  cases l <;> simp [expected]

/-- No chunk but the last one reaches the length. -/
theorem Framed.short (hlaw : Storage.NeverFails σ) {b : LiveBlock}
    {rest : List LiveBlock} {sh : Shared σ} (hb : Acceptable sh b)
    (h : Framed sh ((b :: rest).flatMap LiveBlock.messages) ((b :: rest).map LiveBlock.payload)) :
    ∀ i, 0 < i → i < b.chunks.length →
      totalLength (b.chunks.take i) < b.message.entry.payloadLength.val := by
  intro i
  induction i using Nat.strong_induction_on with
  | _ i ih =>
      intro hpos hlt
      by_contra hlong
      obtain ⟨j, rfl⟩ := Nat.exists_eq_add_one_of_ne_zero hpos.ne'
      obtain ⟨sh₁, hrecv, -⟩ := receive_during hlaw hb (i := j) (by omega)
        fun k hk hkj => ih k (by omega) hk (by omega)
      obtain ⟨res, sh₂, hchunk, hclean, -⟩ := onMessage_chunk_complete sh₁
        (by omega : j < b.chunks.length) (not_lt.mp hlong)
      obtain ⟨d, sh₃, hall, hd⟩ := h (j + 2) (by
        rw [List.flatMap_cons, List.length_append, b.length_messages]
        omega)
      have htake : b.chunks.take (j + 1) = b.chunks.take j ++ [b.chunks[j]] := by
        rw [List.take_add_one, List.getElem?_eq_getElem (by omega)]
        rfl
      rw [List.flatMap_cons, take_block b _ (by omega), htake, List.map_append, ← List.cons_append,
        receive_append hrecv] at hall
      simp only [List.map_cons, List.map_nil, receive, hchunk] at hall
      -- the payload was finalized although chunks are still to come
      have hexpected : expected ((b :: rest).map LiveBlock.payload) (j + 2) =
          some (b.message.entry.payloadDigest, b.chunks.take (j + 1)) := by
        have hin : j + 2 ≤ b.chunks.length ∨ b.chunks = [] ∧ j + 2 = 1 := Or.inl (by omega)
        simp only [List.map_cons, LiveBlock.payload, expected, if_pos hin]
        rfl
      rw [hexpected] at hd
      cases res with
      | error e => cases hall
      | ok d' =>
          obtain ⟨hd', -⟩ := Prod.mk.inj (Option.some.inj hall)
          rw [← Except.ok.inj hd', hclean d' rfl] at hd
          cases hd

/-- With the last chunk the payload is finalized. -/
theorem Framed.finalized (hlaw : Storage.NeverFails σ) {b : LiveBlock}
    {rest : List LiveBlock} {sh : Shared σ} (hb : Acceptable sh b) (hne : b.chunks ≠ [])
    (h : Framed sh ((b :: rest).flatMap LiveBlock.messages) ((b :: rest).map LiveBlock.payload)) :
    b.message.entry.payloadLength.val ≤ totalLength b.chunks ∧
      ∃ store : σ, (Storage.importChunks store b.message.entry.payloadDigest
        b.message.entry.payloadLength b.chunks).1 = .ok () := by
  obtain ⟨i, hi⟩ := Nat.exists_eq_add_one_of_ne_zero
    (fun h => hne (List.length_eq_zero_iff.mp h) : b.chunks.length ≠ 0)
  have hlt : i < b.chunks.length := by omega
  have hall : b.chunks.take (i + 1) = b.chunks := by rw [← hi, List.take_length]
  have htake : b.chunks.take (i + 1) = b.chunks.take i ++ [b.chunks[i]] := by
    rw [List.take_add_one, List.getElem?_eq_getElem hlt]
    rfl
  obtain ⟨sh₁, hrecv, -⟩ := receive_during hlaw hb (i := i) (by omega)
    fun j hpos hle => h.short hlaw hb j hpos (by omega)
  obtain ⟨d, sh', hreceive, hd⟩ := h (i + 2) (by
    rw [List.flatMap_cons, List.length_append, b.length_messages]
    omega)
  rw [List.flatMap_cons, take_block b _ (by omega), htake, List.map_append, ← List.cons_append,
    receive_append hrecv] at hreceive
  simp only [List.map_cons, List.map_nil, receive] at hreceive
  -- nothing is in progress after the last chunk
  have hnone : d.inProgress = none := by
    have hout : ¬ (i + 2 ≤ b.chunks.length ∨ b.chunks = [] ∧ i + 2 = 1) := by omega
    have hover : i + 2 - (b.chunks.length + 1) = 0 := by omega
    rw [hd, List.map_cons, LiveBlock.payload, expected, if_neg (by omega), if_neg hout, hover,
      expected_zero]
  have hfull : b.message.entry.payloadLength.val ≤ totalLength b.chunks := by
    by_contra hlong
    rw [onMessage_chunk sh₁ hlt (by rw [hall]; omega)] at hreceive
    obtain ⟨hsame, -⟩ := Prod.mk.inj (Option.some.inj hreceive)
    rw [← Except.ok.inj hsame, inProgress_during] at hnone
    cases hnone
  obtain ⟨res, sh₂, hchunk, hclean, hok⟩ :=
    onMessage_chunk_complete sh₁ hlt (by rw [hall]; exact hfull)
  refine ⟨hfull, sh₁.store, ?_⟩
  rw [hall] at hok
  rw [hchunk] at hreceive
  cases res with
  | error e => cases hreceive
  | ok d' =>
      rw [hclean d' rfl] at hok
      exact hok.mpr rfl

theorem Framed.recognisable (hlaw : Storage.NeverFails σ) (himport : Storage.ImportsByContent σ)
    {b : LiveBlock} {rest : List LiveBlock} {sh : Shared σ} (hb : Acceptable sh b)
    (h : Framed sh ((b :: rest).flatMap LiveBlock.messages) ((b :: rest).map LiveBlock.payload)) :
    Recognisable σ b.message.entry b.chunks := by
  refine ⟨h.short hlaw hb, fun hne => (h.finalized hlaw hb hne).1, ?_⟩
  by_cases hne : b.chunks = []
  · exact Or.inl hne
  · obtain ⟨-, store, hstore⟩ := h.finalized hlaw hb hne
    exact Or.inr fun store' => himport store store' _ _ _ hstore

theorem Framed.wellDelimited (hlaw : Storage.NeverFails σ) (himport : Storage.ImportsByContent σ)
    {blocks : List LiveBlock} {sh : Shared σ} (hb : ∀ b ∈ blocks, Acceptable sh b)
    (h : Framed sh (blocks.flatMap LiveBlock.messages) (blocks.map LiveBlock.payload)) :
    WellDelimited σ (blocks.map LiveBlock.payload) := by
  induction blocks generalizing sh with
  | nil => trivial
  | cons b rest ih =>
      have hacc := hb b List.mem_cons_self
      have hrec := h.recognisable hlaw himport hacc
      cases rest with
      | nil => exact hrec
      | cons b' rest =>
          have hne : b.chunks ≠ [] := by
            intro hnil
            obtain ⟨sh₁, hentry⟩ := onMessage_entry hlaw hacc
            have hacc' := (hb b' (by simp)).of_tokens (staticTokens_onMessage hentry)
            obtain ⟨e, sh₂, herror⟩ := onMessage_entry_pending hlaw (b := b) hacc'
            obtain ⟨d, sh₃, hall, -⟩ := h 2 (by
              simp only [List.flatMap_cons, List.length_append, LiveBlock.length_messages]
              omega)
            have htwo : ((b :: b' :: rest).flatMap LiveBlock.messages).take 2 =
                [.sendEntry b.message, .sendEntry b'.message] := by
              simp [LiveBlock.messages, hnil]
            rw [htwo] at hall
            simp only [receive, hentry, herror] at hall
            cases hall
          obtain ⟨sh', hrecv, htokens⟩ := receive_block hlaw hacc hne hrec
          refine ⟨hne, hrec, ih
            (fun c hc => (hb c (List.mem_cons_of_mem _ hc)).of_tokens htokens) ?_⟩
          intro n hn
          obtain ⟨d, sh'', hall, hd⟩ := h (b.chunks.length + 1 + n) (by
            rw [List.flatMap_cons, List.length_append, b.length_messages]
            omega)
          refine ⟨d, sh'', ?_, ?_⟩
          · rw [List.flatMap_cons, List.take_append,
              List.take_of_length_le (by rw [b.length_messages]; omega), b.length_messages,
              receive_append hrecv, Nat.add_sub_cancel_left] at hall
            exact hall
          · have hout : ¬ (b.chunks.length + 1 + n ≤ b.chunks.length ∨
                b.chunks = [] ∧ b.chunks.length + 1 + n = 1) := by
              rintro (hle | ⟨hnil, -⟩)
              · omega
              · exact hne hnil
            have hzero : b.chunks.length + 1 + n ≠ 0 := by omega
            rw [hd, List.map_cons, LiveBlock.payload, expected, if_neg hzero, if_neg hout,
              Nat.add_sub_cancel_left]

/-! ## Sender and receiver -/

/-- What was sent for a list of entries: each entry with the chunks of its
payload. -/
def sentPayloads (sends : List (AuthorisedEntry × σ)) : List (Entry × List Chunk) :=
  sends.map fun s => (s.1.entry, DataSender.chunksOf s.2 s.1.entry)

/-- **Live data.** The receiver accepts all messages for a list of entries,
attributes every chunk to its entry and finalizes every payload exactly after
its last chunk, if and only if the entries are well delimited: all but the last
have a chunk, and the chunks of a payload reach its declared length with the
last of them and can be imported. -/
theorem framed_iff_wellDelimited (hlaw : Storage.NeverFails σ)
    (himport : Storage.ImportsByContent σ) (sends : List (AuthorisedEntry × σ))
    (sender receiver : Shared σ) (hm : sender.Mirrored)
    (htokens : receiver.staticTokens.theirs.Mirrors
      (DataSender.sendAll sender sends).1.sentTokens) :
    Framed receiver (DataSender.sendAll sender sends).2 (sentPayloads sends) ↔
      WellDelimited σ (sentPayloads sends) := by
  obtain ⟨blocks, hmessages, hmap, -, hblocks⟩ := sendAll_blocks hlaw sends sender hm
  have hacc : ∀ b ∈ blocks, Acceptable receiver b := by
    intro b hb
    obtain ⟨hoffset, token, a, hget, hnew⟩ := hblocks b hb
    refine ⟨hoffset, a, ?_⟩
    unfold StaticTokens.authoriseEntryEventually
    rw [htokens.tryGet, hget]
    exact congrArg Poll.ready hnew
  rw [hmessages, sentPayloads, ← hmap]
  exact ⟨fun h => h.wellDelimited hlaw himport hacc, fun h => .of_wellDelimited hlaw hacc h⟩

end Receiver

section Samples

open IrohWillow.Sample

attribute [local instance] acceptingSignatures Sample.timestampHash

/-- A peer with the store. -/
def Sample.peer (store : IdealStore) (tokens : StaticTokens) : Shared IdealStore :=
  { store := store
    ourRole := .alfie
    staticTokens := tokens
    sessionId := 0
    maxEagerPayloadSize := 0 }

/-- The receiver has the token of the sample user. -/
def Sample.receiver : Shared IdealStore :=
  Sample.peer {} { theirs := (ResourceMap.bind {} writeCapability).2 }

/-- A store with the empty blob, whose verifiable stream is the eight bytes of its
size. -/
def Sample.emptyBlob : IdealStore := { blobs := [(.ofByte 0, [[0, 0, 0, 0, 0, 0, 0, 0]])] }

/-- Two entries with empty payloads. -/
def Sample.sends (store : IdealStore) : List (AuthorisedEntry × IdealStore) :=
  [(entryAt [[1]] 1, store), (entryAt [[2]] 1, store)]

/-- The blobs of two empty payloads are received. -/
theorem framed_two_empty_payloads :
    Framed Sample.receiver
      (DataSender.sendAll (Sample.peer {} {}) (Sample.sends Sample.emptyBlob)).2
      (sentPayloads (Sample.sends Sample.emptyBlob)) := by
  refine (framed_iff_wellDelimited IdealStore.neverFails IdealStore.importsByContent
    (Sample.sends Sample.emptyBlob) (Sample.peer {} {}) Sample.receiver
    ResourceMap.mirrors_empty (ResourceMap.mirrors_empty.bind)).mpr ?_
  have hrec : ∀ path time, Recognisable IdealStore (entryAt path time).entry
      [[0, 0, 0, 0, 0, 0, 0, 0]] := by
    intro path time
    refine ⟨?_, fun _ => Nat.zero_le _, Or.inr fun _ => rfl⟩
    intro i hpos hlt
    replace hlt : i < 1 := hlt
    omega
  exact ⟨by decide, hrec _ _, hrec _ _⟩

/-- When the sender has no blobs, the second entry is an invalid message. -/
theorem entry_after_missing_payload_refused :
    ¬ Framed Sample.receiver (DataSender.sendAll (Sample.peer {} {}) (Sample.sends {})).2
      (sentPayloads (Sample.sends {})) := by
  intro h
  obtain ⟨d, sh, hreceive, -⟩ := h 2 (by decide)
  have herror : ((DataReceiver.receive {} Sample.receiver
      ((DataSender.sendAll (Sample.peer {} {}) (Sample.sends {})).2.take 2)).map fun res =>
        match res.1 with
        | .error e => some e
        | .ok _ => none) = some (some (.error .invalidMessageInCurrentState)) := by rfl
  rw [hreceive] at herror
  cases herror

end Samples

end DataReceiver

end IrohWillow
