import IrohWillow.Session.IdealStore
import IrohWillow.Session.PeerRun
import IrohWillow.Session.ReadAccess

/-!
# The lengths that a peer sends

What a peer says about the length of a payload meets 64-bit arithmetic in three
places: the power of its maximal payload size in the handshake (`net.rs`), the
length less the offset when a payload is announced, and the sum of the chunks
that arrive.

An announcement sets what is expected; the bytes that arrive are counted
against it (`CurrentPayload.Counted`). The count is exact as long as nothing
overflows, and that is decided by the messages: `payload_lengths_sound_iff`.
-/

namespace IrohWillow

/-! ## The handshake -/

/-- `u64::pow`; `none` on overflow. -/
def U64.pow (base : U64) (exp : Nat) : Option U64 :=
  if h : base.val ^ exp < 2 ^ 64 then some ⟨base.val ^ exp, h⟩ else none

/-- `their_max_payload_size` of `initial_transmission`, for the power that was
read. -/
def theirMaxPayloadSize (power : Byte) : Except String (Option U64) :=
  if power.val ≤ 64 then .ok (U64.pow 2 power.val) else .error "max payload size too large"

theorem U64.pow_two_eq_none_iff (exp : Nat) : U64.pow 2 exp = none ↔ 64 ≤ exp := by
  unfold U64.pow
  have hlt : (2 : U64).val ^ exp < 2 ^ 64 ↔ exp < 64 :=
    Nat.pow_lt_pow_iff_right (by decide)
  by_cases h : exp < 64
  · rw [dif_pos (hlt.mpr h)]
    simpa using h
  · rw [dif_neg (mt hlt.mp h)]
    simpa using h

/-- Of the powers that are accepted the last one overflows. -/
theorem theirMaxPayloadSize_overflows_iff (power : Byte) :
    theirMaxPayloadSize power = .ok none ↔ power.val = 64 := by
  unfold theirMaxPayloadSize
  split
  · rename_i hle
    rw [Except.ok.injEq, U64.pow_two_eq_none_iff]
    omega
  · rename_i hgt
    constructor
    · intro h
      cases h
    · intro h
      omega

/-! ## The count -/

/-- What a peer has announced last, and the bytes that it has sent since. -/
structure Announcement where
  length : U64
  offset : U64
  received : Nat
  deriving DecidableEq

/-- More bytes have been sent. -/
def Announcement.add (x : Announcement) (chunk : Chunk) : Announcement :=
  { x with received := x.received + chunk.length }

/-- The bytes of the announcement have been sent, from its offset on. -/
def Announcement.Reached (x : Announcement) : Prop :=
  x.offset ≤ x.length ∧ x.length.val - x.offset.val ≤ x.received

namespace CurrentPayload

/-- The addition in `recv_chunk` overflows. -/
def RecvOverflows (p : CurrentPayload) (chunk : Chunk) : Prop :=
  ∃ state, p.inner = some state ∧ 2 ^ 64 ≤ state.receivedLength + chunk.length

/-- `is_complete` holds of a payload exactly when the bytes of the announcement
have been sent. -/
def CompleteExactly (p : CurrentPayload) (x : Option Announcement) : Prop :=
  p.inner ≠ none → (p.isComplete = true ↔ ∃ a, x = some a ∧ a.Reached)

/-- A payload is counted against the announcement. -/
def Counted (p : CurrentPayload) (x : Option Announcement) : Prop :=
  ∀ state, p.inner = some state → ∃ a, x = some a ∧ a.offset ≤ a.length ∧
    state.expectedLength = a.length.val - a.offset.val ∧ state.receivedLength = a.received

variable {p p' : CurrentPayload} {x : Option Announcement}

theorem counted_empty (x : Option Announcement) : Counted {} x := by
  intro state h
  cases h

theorem Counted.completeExactly (h : p.Counted x) : p.CompleteExactly x := by
  intro hne
  obtain ⟨state, hstate⟩ := Option.ne_none_iff_exists'.mp hne
  obtain ⟨a, rfl, hle, hexpected, hreceived⟩ := h state hstate
  have hcomplete : p.isComplete = true ↔ state.expectedLength ≤ state.receivedLength := by
    simp [isComplete, hstate]
  rw [hcomplete, hexpected, hreceived]
  constructor
  · intro hreached
    exact ⟨a, rfl, hle, hreached⟩
  · rintro ⟨b, hb, -, hreached⟩
    obtain rfl := Option.some.inj hb
    exact hreached

/-- What `set` does: it refuses a second payload, and it fails when the
subtraction underflows. -/
theorem set_cases (p : CurrentPayload) (digest : PayloadDigest) (total : U64)
    (available offset : Option U64) :
    (p.inner ≠ none ∧ p.set digest total available offset =
        .error (.error .invalidMessageInCurrentState)) ∨
      (p.inner = none ∧ available.getD total < offset.getD 0 ∧
        p.set digest total available offset = .error .panic) ∨
      (p.inner = none ∧ offset.getD 0 ≤ available.getD total ∧
        ∃ p', p.set digest total available offset = .ok p' ∧
          p'.Counted (some ⟨available.getD total, offset.getD 0, 0⟩)) := by
  cases hp : p.inner with
  | some state =>
      refine Or.inl ⟨by simp, ?_⟩
      simp [set, hp]
  | none =>
      by_cases hlt : available.getD total < offset.getD 0
      · refine Or.inr (Or.inl ⟨rfl, hlt, ?_⟩)
        simp [set, hp, hlt]
      · have hle : offset.getD 0 ≤ available.getD total := not_lt.mp hlt
        have hset : p.set digest total available offset = .ok ⟨some
            { payloadDigest := digest
              expectedLength := (available.getD total).val - (offset.getD 0).val
              receivedLength := 0
              totalLength := total
              offset := offset.getD 0
              writer := none }⟩ := by simp [set, hp, hlt]
        refine Or.inr (Or.inr ⟨rfl, hle, _, hset, ?_⟩)
        intro state hstate
        obtain rfl := Option.some.inj hstate
        exact ⟨_, rfl, hle, rfl, rfl⟩

theorem Counted.recvChunk (h : p.Counted x) {chunk : Chunk} (hp : p.recvChunk chunk = .ok p') :
    p'.Counted (x.map (·.add chunk)) := by
  unfold CurrentPayload.recvChunk at hp
  split at hp
  · cases hp
  · rename_i state hstate
    obtain rfl := Except.ok.inj hp
    obtain ⟨a, rfl, hle, hexpected, hreceived⟩ := h state hstate
    intro state' hstate'
    obtain rfl := Option.some.inj hstate'
    refine ⟨a.add chunk, rfl, hle, hexpected, ?_⟩
    show state.receivedLength + chunk.length = a.received + chunk.length
    rw [hreceived]

/-- The addition stays in range exactly when fewer bytes have been announced and
sent. -/
theorem Counted.not_recvOverflows_iff (h : p.Counted x) (chunk : Chunk) :
    ¬ p.RecvOverflows chunk ↔
      (p.inner ≠ none → ∀ a, x = some a → a.received + chunk.length < 2 ^ 64) := by
  constructor
  · intro hfits hne a hx
    obtain ⟨state, hstate⟩ := Option.ne_none_iff_exists'.mp hne
    obtain ⟨b, hb, -, -, hreceived⟩ := h state hstate
    obtain rfl := Option.some.inj (hx.symm.trans hb)
    by_contra hlarge
    exact hfits ⟨state, hstate, hreceived ▸ not_lt.mp hlarge⟩
  · rintro hfits ⟨state, hstate, hlarge⟩
    obtain ⟨a, hx, -, -, hreceived⟩ := h state hstate
    have hlt := hfits (by simp [hstate]) a hx
    omega

theorem ensureNone_error {e : Failure} (h : p.ensureNone = .error e) :
    p.inner ≠ none ∧ e = .error .invalidMessageInCurrentState := by
  unfold ensureNone at h
  split at h
  · rename_i hactive
    obtain rfl := Except.error.inj h
    refine ⟨?_, rfl⟩
    intro hnone
    simp [isActive, hnone] at hactive
  · cases h

/-- A finalized payload is gone. -/
theorem finalize_ok {σ : Type} [Meadowcap] [Storage σ] {store store' : σ}
    (h : p.finalize store = (.ok p', store')) : p' = {} := by
  unfold finalize at h
  repeat' split at h
  all_goals cases h
  all_goals rfl

end CurrentPayload

/-! ## One message -/

namespace DataReceiver

open Reconciler

variable {σ : Type} [Meadowcap] [Storage σ]

/-- The entry of a message is announced: no payload is being received, and the
entry is authorised and ingested. -/
def Announces (d : DataReceiver) (sh : Shared σ) (m : DataSendEntry) : Prop :=
  d.currentPayload.inner = none ∧ ∃ a,
    sh.staticTokens.authoriseEntryEventually m.entry m.staticTokenHandle m.dynamicToken =
      .ready (some a) ∧
    ∃ inserted, (Storage.ingestEntry sh.store a (.remote sh.sessionId)).1 = .ok inserted

/-- An entry is refused, or it is announced, and then the offset decides. -/
theorem onSendEntry_cases {d : DataReceiver} {sh sh' : Shared σ} {m : DataSendEntry}
    {res : Except Failure DataReceiver} (h : d.onSendEntry sh m = some (res, sh')) :
    (¬ d.Announces sh m ∧ ∃ e, res = .error (.error e)) ∨
      (d.Announces sh m ∧ m.entry.payloadLength < m.offset ∧ res = .error .panic) ∨
      (m.offset ≤ m.entry.payloadLength ∧ ∃ d', res = .ok d' ∧
        d'.currentPayload.Counted (some ⟨m.entry.payloadLength, m.offset, 0⟩)) := by
  unfold onSendEntry at h
  split at h
  · rename_i e hactive
    obtain ⟨hsome, rfl⟩ := CurrentPayload.ensureNone_error hactive
    obtain ⟨rfl, -⟩ := Prod.mk.inj (Option.some.inj h)
    exact Or.inl ⟨fun hannounces => hsome hannounces.1, _, rfl⟩
  · split at h
    · cases h
    · rename_i hunauthorised
      obtain ⟨rfl, -⟩ := Prod.mk.inj (Option.some.inj h)
      refine Or.inl ⟨?_, _, rfl⟩
      rintro ⟨-, a, ha, -⟩
      cases hunauthorised.symm.trans ha
    · rename_i a ha
      obtain ⟨-, hentry, -⟩ := StaticTokens.authoriseEntryEventually_ready ha
      dsimp only at h
      split at h
      · rename_i e store hingest
        obtain ⟨rfl, -⟩ := Prod.mk.inj (Option.some.inj h)
        refine Or.inl ⟨?_, _, rfl⟩
        rintro ⟨-, b, hb, inserted, hinserted⟩
        obtain rfl := Option.some.inj (Poll.ready.inj (ha.symm.trans hb))
        rw [hingest] at hinserted
        cases hinserted
      · rename_i inserted store hingest
        rcases CurrentPayload.set_cases d.currentPayload a.entry.payloadDigest
            a.entry.payloadLength none (some m.offset) with
          ⟨hsome, hset⟩ | ⟨hnone, hlt, hset⟩ | ⟨-, hle, payload, hset, hcounted⟩
        all_goals
          rw [hset] at h
          obtain ⟨rfl, -⟩ := Prod.mk.inj (Option.some.inj h)
        · exact Or.inl ⟨fun hannounces => hsome hannounces.1, _, rfl⟩
        · refine Or.inr (Or.inl ⟨⟨hnone, a, ha, inserted, ?_⟩, hentry ▸ hlt, rfl⟩)
          rw [hingest]
        · exact Or.inr (Or.inr ⟨hentry ▸ hle, _, rfl, hentry ▸ hcounted⟩)

/-- The subtraction underflows exactly when an entry is announced with an offset
beyond its length. -/
theorem onSendEntry_panics_iff {d : DataReceiver} {sh sh' : Shared σ} {m : DataSendEntry}
    {res : Except Failure DataReceiver} (h : d.onSendEntry sh m = some (res, sh')) :
    res = .error .panic ↔ d.Announces sh m ∧ m.entry.payloadLength < m.offset := by
  rcases onSendEntry_cases h with ⟨hnot, e, rfl⟩ | ⟨hannounces, hlt, rfl⟩ | ⟨hle, d', rfl, -⟩
  · constructor
    · intro hpanic
      cases hpanic
    · rintro ⟨hannounces, -⟩
      exact absurd hannounces hnot
  · exact ⟨fun _ => ⟨hannounces, hlt⟩, fun _ => rfl⟩
  · constructor
    · intro hpanic
      cases hpanic
    · rintro ⟨-, hlt⟩
      exact absurd hlt (not_lt.mpr hle)

/-- A chunk is counted; the payload is finalized when it is complete. -/
theorem onSendPayload_counted {d d' : DataReceiver} {sh sh' : Shared σ} {bytes : Chunk}
    {x : Option Announcement} (hcounted : d.currentPayload.Counted x)
    (h : d.onSendPayload sh bytes = (.ok d', sh')) :
    d'.currentPayload.Counted (x.map (·.add bytes)) := by
  unfold onSendPayload at h
  split at h
  · cases h
  · rename_i payload hrecv
    split at h
    · split at h
      · cases h
      · rename_i payload' store hfinalize
        obtain ⟨hd, -⟩ := Prod.mk.inj h
        obtain rfl := Except.ok.inj hd
        obtain rfl := CurrentPayload.finalize_ok hfinalize
        exact CurrentPayload.counted_empty _
    · obtain ⟨hd, -⟩ := Prod.mk.inj h
      obtain rfl := Except.ok.inj hd
      exact hcounted.recvChunk hrecv

end DataReceiver

namespace Reconciler

variable {σ : Type} [Meadowcap]

/-- The payload inside the block of entries, if there is one, is counted
against the announcement. -/
def Counted (r : Reconciler σ) (x : Option Announcement) : Prop :=
  ∀ state, r.entryState = some state → state.currentPayload.Counted x

theorem Counted.congr {r r' : Reconciler σ} {x : Option Announcement} (h : r.Counted x)
    (hstate : r'.entryState = r.entryState) : r'.Counted x := by
  intro state hs
  exact h state (hstate ▸ hs)

theorem receivedSendPayload_counted {r r' : Reconciler σ} {bytes : Chunk}
    {x : Option Announcement} (hcounted : r.Counted x)
    (h : r.receivedSendPayload bytes = (.ok (), r')) : r'.Counted (x.map (·.add bytes)) := by
  unfold receivedSendPayload at h
  split at h
  · cases h
  · rename_i state hstate
    split at h
    · cases h
    · rename_i payload hrecv
      obtain rfl := (Prod.mk.inj h).2
      intro state' hstate'
      obtain rfl := Option.some.inj hstate'
      exact (hcounted state hstate).recvChunk hrecv

variable [Storage σ]

/-- An entry is refused, or it announces what is available of its payload. -/
theorem receivedSendEntry_counted (r : Reconciler σ) (m : ReconciliationSendEntry)
    (a : AuthorisedEntry) :
    (∃ e, (r.receivedSendEntry m a).1 = .error (.error e)) ∨
      ((r.receivedSendEntry m a).1 = .ok () ∧
        (r.receivedSendEntry m a).2.Counted (some ⟨m.available, 0, 0⟩)) := by
  unfold receivedSendEntry
  split
  · exact Or.inl ⟨_, rfl⟩
  · rename_i state _
    split
    · rename_i e hactive
      obtain ⟨-, rfl⟩ := CurrentPayload.ensureNone_error hactive
      exact Or.inl ⟨_, rfl⟩
    · rcases CurrentPayload.set_cases state.currentPayload a.entry.payloadDigest
          a.entry.payloadLength (some m.available) none with
        ⟨-, hset⟩ | ⟨-, hlt, -⟩ | ⟨-, -, payload, hset, hcounted⟩
      · rw [hset]
        exact Or.inl ⟨_, rfl⟩
      · -- the offset is zero
        exact absurd hlt (Fin.not_lt_zero _)
      · rw [hset]
        dsimp only
        split
        · exact Or.inl ⟨_, rfl⟩
        · refine Or.inr ⟨rfl, ?_⟩
          intro state' hstate'
          obtain rfl := Option.some.inj hstate'
          exact hcounted

/-- The message is refused, or it announces; nothing underflows. -/
theorem receivedMessage_sendEntry {r r' : Reconciler σ} {res : Except Failure Unit}
    {m : ReconciliationSendEntry} (h : r.receivedMessage (.sendEntry m) = some (res, r')) :
    (∃ e, res = .error (.error e)) ∨ (res = .ok () ∧ r'.Counted (some ⟨m.available, 0, 0⟩)) := by
  unfold receivedMessage at h
  dsimp only at h
  split at h
  · cases h
  · obtain ⟨rfl, -⟩ := Prod.mk.inj (Option.some.inj h)
    exact Or.inl ⟨_, rfl⟩
  · rename_i a _
    have hentry := receivedSendEntry_counted r m a
    rw [Option.some.inj h] at hentry
    exact hentry

/-- After the end of a payload nothing is counted. -/
theorem receivedTerminatePayload_counted {r r' : Reconciler σ} {isFinal : Bool}
    (h : r.receivedTerminatePayload isFinal = (.ok (), r')) (x : Option Announcement) :
    r'.Counted x := by
  unfold receivedTerminatePayload at h
  split at h
  · cases h
  · rename_i state _
    split at h
    · cases h
    · rename_i payload store hfinalize
      obtain rfl := CurrentPayload.finalize_ok hfinalize
      have hnone : ∀ r₁ : Reconciler σ, r₁.entryState = none → r₁.Counted x := by
        intro r₁ hr₁ state hstate
        cases hr₁.symm.trans hstate
      dsimp only at h
      split at h
      · split at h
        · cases h
        · split at h
          · obtain rfl := congrArg Prod.snd h
            exact hnone _ (completeTarget_spec _ _).2.2
          · obtain rfl := (Prod.mk.inj h).2
            exact hnone _ rfl
      · obtain rfl := (Prod.mk.inj h).2
        intro state' hstate'
        obtain rfl := Option.some.inj hstate'
        exact CurrentPayload.counted_empty x

end Reconciler

/-! ## All messages -/

/-- What a message of the reconciliation channel announces. -/
def ReconciliationMessage.announce (x : Option Announcement) :
    ReconciliationMessage → Option Announcement
  | .sendEntry m => some ⟨m.available, 0, 0⟩
  | .sendPayload bytes => x.map (·.add bytes)
  | .terminatePayload _ => none
  | .sendFingerprint _ => x
  | .announceEntries _ => x

/-- What a message of the data channel announces. -/
def DataMessage.announce (x : Option Announcement) : DataMessage → Option Announcement
  | .sendEntry m => some ⟨m.entry.payloadLength, m.offset, 0⟩
  | .sendPayload bytes => x.map (·.add bytes)
  | .setMetadata => x

namespace PeerRun

variable {σ : Type} [Meadowcap]

/-- The payload announced on the reconciliation channel. -/
def announced (s : PeerRun σ) : Option Announcement :=
  s.received.foldl ReconciliationMessage.announce none

/-- The payload announced on the data channel. -/
def announcedData (s : PeerRun σ) : Option Announcement :=
  s.receivedData.foldl DataMessage.announce none

/-- Both payloads are counted, as long as their tasks run. -/
structure Counted (s : PeerRun σ) : Prop where
  reconciler : s.reconcilerFailed = false → s.reconciler.Counted s.announced
  data : s.dataFailed = false → s.dataReceiver.currentPayload.Counted s.announcedData

theorem counted_start (store : σ) (ourRole : Role) (sessionId : SessionId)
    (maxEagerPayloadSize : U64) (session : List AoiIntersection) :
    (start store ourRole sessionId maxEagerPayloadSize session).Counted where
  reconciler _ := by
    intro state hstate
    cases hstate
  data _ := CurrentPayload.counted_empty _

variable [Storage σ] {s s' : PeerRun σ}

/-- **One message of the reconciliation channel.** -/
theorem counted_receivedMessage {r r' : Reconciler σ} {x : Option Announcement}
    (hcounted : r.Counted x) {m : ReconciliationMessage}
    (h : r.receivedMessage m = some (.ok (), r')) :
    r'.Counted (ReconciliationMessage.announce x m) := by
  cases m with
  | sendFingerprint m =>
      rcases Reconciler.receivedMessage_sendFingerprint h with ⟨e, he, -⟩ | ⟨t, -, heq⟩
      · cases he
      · obtain rfl := congrArg Prod.snd heq
        exact hcounted.congr (Reconciler.finishTarget_spec _ _ _).2.2.1
  | announceEntries m =>
      rcases Reconciler.receivedMessage_announceEntries h with ⟨e, he, -⟩ | ⟨r₁, hr₁, hcases⟩
      · cases he
      · obtain ⟨-, rfl⟩ := Reconciler.entryStateAnnounce_ok hr₁
        rcases hcases with ⟨e, he, -⟩ | ⟨t, -, heq⟩
        · cases he
        · obtain rfl := congrArg Prod.snd heq
          -- a new block of entries has no payload yet
          intro state hstate
          rw [(Reconciler.finishTarget_spec _ _ _).2.2.1] at hstate
          dsimp only at hstate
          split at hstate
          · cases hstate
          · obtain rfl := Option.some.inj hstate
            exact CurrentPayload.counted_empty _
  | sendEntry m =>
      rcases Reconciler.receivedMessage_sendEntry h with ⟨e, he⟩ | ⟨-, hannounced⟩
      · cases he
      · exact hannounced
  | sendPayload bytes => exact Reconciler.receivedSendPayload_counted hcounted (Option.some.inj h)
  | terminatePayload isFinal =>
      exact Reconciler.receivedTerminatePayload_counted (Option.some.inj h) _

/-- **One message of the data channel.** -/
theorem counted_onMessage {d d' : DataReceiver} {sh sh' : Reconciler.Shared σ}
    {x : Option Announcement} (hcounted : d.currentPayload.Counted x) {m : DataMessage}
    (h : d.onMessage sh m = some (.ok d', sh')) :
    d'.currentPayload.Counted (DataMessage.announce x m) := by
  cases m with
  | sendEntry m =>
      rcases DataReceiver.onSendEntry_cases h with
        ⟨-, e, he⟩ | ⟨-, -, he⟩ | ⟨-, d₁, hd₁, hannounced⟩
      · cases he
      · cases he
      · obtain rfl := Except.ok.inj hd₁
        exact hannounced
  | sendPayload bytes => exact DataReceiver.onSendPayload_counted hcounted (Option.some.inj h)
  | setMetadata =>
      obtain rfl := Except.ok.inj (Prod.mk.inj (Option.some.inj h)).1
      exact hcounted

variable [WillowDataModel]

/-- **One step.** -/
theorem Counted.step (h : s.Counted) {a : Action σ} (hstep : step s a = some s') :
    s'.Counted := by
  cases a with
  | takeInput =>
      obtain ⟨hok, res, r, hr, rfl⟩ := step_takeInput hstep
      refine ⟨fun _ => (h.reconciler hok).congr ?_, h.data⟩
      obtain ⟨i, inbox, -, ⟨e, -, rfl⟩ | ⟨t, sh, -, -, rfl⟩⟩ := Reconciler.takeInput_cases hr
      · rfl
      · rfl
  | message m =>
      obtain ⟨hok, res, r, hr, rfl⟩ := step_message hstep
      refine ⟨fun hres => ?_, h.data⟩
      have hmessage : r.Counted (ReconciliationMessage.announce s.announced m) := by
        cases res with
        | error e => cases hres
        | ok _ => exact counted_receivedMessage (h.reconciler hok) hr
      show r.Counted ((s.received ++ [m]).foldl ReconciliationMessage.announce none)
      rw [List.foldl_append]
      exact hmessage
  | dataMessage m =>
      obtain ⟨hok, res, sh, d, hsh, hd, rfl⟩ := step_dataMessage hstep
      refine ⟨fun hres => (h.reconciler hres).congr rfl, fun hres => ?_⟩
      have hmessage : d.currentPayload.Counted (DataMessage.announce s.announcedData m) := by
        cases res with
        | error e => cases hres
        | ok d' =>
            obtain rfl := hd d' rfl
            exact counted_onMessage (h.data hok) hsh
      show d.currentPayload.Counted ((s.receivedData ++ [m]).foldl DataMessage.announce none)
      rw [List.foldl_append]
      exact hmessage
  | closeInbox =>
      obtain rfl := Option.some.inj hstep
      exact ⟨fun hres => (h.reconciler hres).congr rfl, h.data⟩
  | bindStaticToken token =>
      obtain rfl := Option.some.inj hstep
      exact ⟨fun hres => (h.reconciler hres).congr rfl, h.data⟩
  | bindOurs token =>
      obtain rfl := Option.some.inj hstep
      exact ⟨fun hres => (h.reconciler hres).congr rfl, h.data⟩
  | write store =>
      obtain rfl := Option.some.inj hstep
      exact ⟨fun hres => (h.reconciler hres).congr rfl, h.data⟩

/-! ### Arithmetic -/

/-- The arithmetic of a step goes out of range: the subtraction when an entry
is announced, or the addition when a chunk arrives. -/
def Faults (s : PeerRun σ) : Action σ → Prop
  | .message (.sendEntry m) =>
      ∃ r, s.reconciler.receivedMessage (.sendEntry m) = some (.error .panic, r)
  | .message (.sendPayload bytes) =>
      ∃ state, s.reconciler.entryState = some state ∧ state.currentPayload.RecvOverflows bytes
  | .dataMessage (.sendEntry m) =>
      ∃ sh, s.dataReceiver.onMessage s.reconciler.shared (.sendEntry m) = some (.error .panic, sh)
  | .dataMessage (.sendPayload bytes) => s.dataReceiver.currentPayload.RecvOverflows bytes
  | _ => False

/-- The lengths in a message fit: an offset is not beyond the length of its
entry, and the chunks of one payload are of less than `2 ^ 64` bytes. -/
def LengthsFit (s : PeerRun σ) : Action σ → Prop
  | .message (.sendPayload bytes) =>
      (∃ state, s.reconciler.entryState = some state ∧ state.currentPayload.inner ≠ none) →
      ∀ x, s.announced = some x → x.received + bytes.length < 2 ^ 64
  | .dataMessage (.sendEntry m) =>
      s.dataReceiver.Announces s.reconciler.shared m → m.offset ≤ m.entry.payloadLength
  | .dataMessage (.sendPayload bytes) =>
      s.dataReceiver.currentPayload.inner ≠ none →
      ∀ x, s.announcedData = some x → x.received + bytes.length < 2 ^ 64
  | _ => True

/-- The accounting of a step is right: the arithmetic stays in range, and
`is_complete` says of each payload whether its bytes have arrived, also when it
is asked before a payload is finalized. -/
structure Accounted (s : PeerRun σ) (a : Action σ) (s' : PeerRun σ) : Prop where
  in_range : ¬ s.Faults a
  reconciler : s'.reconcilerFailed = false → ∀ state, s'.reconciler.entryState = some state →
    state.currentPayload.CompleteExactly s'.announced
  data : s'.dataFailed = false →
    s'.dataReceiver.currentPayload.CompleteExactly s'.announcedData
  asked : ∀ bytes payload, a = .dataMessage (.sendPayload bytes) →
    s.dataReceiver.currentPayload.recvChunk bytes = .ok payload →
    payload.CompleteExactly s'.announcedData

/-- A step goes out of range exactly when its lengths do not fit. -/
theorem Counted.not_faults_iff (h : s.Counted) {a : Action σ} (hstep : PeerRun.step s a = some s') :
    ¬ s.Faults a ↔ s.LengthsFit a := by
  cases a with
  | message m =>
      obtain ⟨hok, -⟩ := step_message hstep
      cases m with
      | sendEntry m =>
          -- the reconciler subtracts nothing: it has no offset
          refine iff_of_true ?_ trivial
          rintro ⟨r, hr⟩
          rcases Reconciler.receivedMessage_sendEntry hr with ⟨e, he⟩ | ⟨hres, -⟩
          · cases he
          · cases hres
      | sendPayload bytes =>
          constructor
          · rintro hnot ⟨state, hstate, hne⟩
            have hcounted := h.reconciler hok state hstate
            exact (hcounted.not_recvOverflows_iff bytes).mp
              (fun hoverflows => hnot ⟨state, hstate, hoverflows⟩) hne
          · rintro hfit ⟨state, hstate, hoverflows⟩
            have hcounted := h.reconciler hok state hstate
            exact (hcounted.not_recvOverflows_iff bytes).mpr
              (fun hne => hfit ⟨state, hstate, hne⟩) hoverflows
      | _ => exact iff_of_true not_false trivial
  | dataMessage m =>
      obtain ⟨hok, res, sh, d, hsh, -, -⟩ := step_dataMessage hstep
      cases m with
      | sendEntry m =>
          have hpanics := DataReceiver.onSendEntry_panics_iff hsh
          constructor
          · intro hfaults hannounces
            by_contra hlt
            obtain rfl := hpanics.mpr ⟨hannounces, not_le.mp hlt⟩
            exact hfaults ⟨sh, hsh⟩
          · rintro hfit ⟨sh', hsh'⟩
            obtain ⟨rfl, -⟩ := Prod.mk.inj (Option.some.inj (hsh.symm.trans hsh'))
            obtain ⟨hannounces, hlt⟩ := hpanics.mp rfl
            exact absurd (hfit hannounces) (not_le.mpr hlt)
      | sendPayload bytes => exact (h.data hok).not_recvOverflows_iff bytes
      | setMetadata => exact iff_of_true not_false trivial
  | _ => exact iff_of_true not_false trivial

theorem Counted.accounted_iff (h : s.Counted) {a : Action σ}
    (hstep : PeerRun.step s a = some s') : s.Accounted a s' ↔ s.LengthsFit a := by
  rw [← h.not_faults_iff hstep]
  constructor
  · intro hacc
    exact hacc.in_range
  · intro hrange
    have h' : s'.Counted := h.step hstep
    refine ⟨hrange, ?_, ?_, ?_⟩
    · intro hok state hstate
      exact (h'.reconciler hok state hstate).completeExactly
    · intro hok
      exact (h'.data hok).completeExactly
    · -- the payload as `recv_chunk` leaves it, before it may be finalized
      rintro bytes payload rfl hrecv
      obtain ⟨hok, res, sh, d, -, -, rfl⟩ := step_dataMessage hstep
      have hcounted := (h.data hok).recvChunk hrecv
      show payload.CompleteExactly
        ((s.receivedData ++ [DataMessage.sendPayload bytes]).foldl DataMessage.announce none)
      rw [List.foldl_append]
      exact hcounted.completeExactly

/-! ### Whole sessions -/

/-- The accounting of a session is right: the maximal payload size of the
handshake does not overflow, and every step is accounted. -/
structure LengthsSound (power : Byte) (start : PeerRun σ) (actions : List (Action σ)) : Prop where
  power : theirMaxPayloadSize power ≠ .ok none
  steps : ∀ p a, p ++ [a] <+: actions → ∀ s s', Transition.run PeerRun.step start p = some s →
    PeerRun.step s a = some s' → s.Accounted a s'

/-- **The lengths of a peer.** The accounting of a session is right exactly when
the power in the handshake is not the largest that is accepted, and in each step
of the session the lengths fit. -/
theorem payload_lengths_sound_iff (power : Byte) (store : σ) (ourRole : Role)
    (sessionId : SessionId) (maxEagerPayloadSize : U64) (session : List AoiIntersection)
    (actions : List (Action σ)) :
    LengthsSound power (start store ourRole sessionId maxEagerPayloadSize session) actions ↔
      power.val ≠ 64 ∧ ∀ p a, p ++ [a] <+: actions → ∀ s s',
        Transition.run PeerRun.step (start store ourRole sessionId maxEagerPayloadSize session) p =
          some s → PeerRun.step s a = some s' → s.LengthsFit a := by
  have hcounted (p : List (Action σ)) (s : PeerRun σ)
      (hs : Transition.run PeerRun.step
        (start store ourRole sessionId maxEagerPayloadSize session) p = some s) : s.Counted :=
    (Transition.Reachable.of_run_all hs).invariant (counted_start _ _ _ _ _)
      fun _ _ _ h _ hstep => h.step hstep
  have hpower := theirMaxPayloadSize_overflows_iff power
  constructor
  · intro h
    refine ⟨mt hpower.mpr h.power, ?_⟩
    intro p a hpa s s' hs hstep
    exact ((hcounted p s hs).accounted_iff hstep).mp (h.steps p a hpa s s' hs hstep)
  · rintro ⟨hne, hfit⟩
    refine ⟨mt hpower.mp hne, ?_⟩
    intro p a hpa s s' hs hstep
    exact ((hcounted p s hs).accounted_iff hstep).mpr (hfit p a hpa s s' hs hstep)

end PeerRun

/-! ## An offset beyond the end -/

namespace PeerRun

section Samples

open IrohWillow.Sample

attribute [local instance] acceptingSignatures timestampHash ReadAccess.Sample.nestedAreas

/-- An entry with an empty payload, from its second byte on. -/
def Sample.beyondTheEnd : DataSendEntry := ⟨bareEntryAt [] 1, 0, .ofByte 0, 1⟩

/-- The peer binds a token and sends an entry of an empty payload with the
offset 1: the length less the offset underflows. -/
theorem offset_beyond_length_underflows :
    ¬ ∀ (_ : Meadowcap) (_ : WillowDataModel) (σ : Type) (_ : Storage σ) (power : Byte) (store : σ)
      (ourRole : Role) (sessionId : SessionId) (maxEagerPayloadSize : U64)
      (session : List AoiIntersection) (actions : List (Action σ)),
      LengthsSound power (start store ourRole sessionId maxEagerPayloadSize session) actions := by
  intro h
  have hsound := h acceptingSignatures ReadAccess.Sample.nestedAreas IdealStore inferInstance 18 {}
    .betty 0 0 [] [.bindStaticToken writeCapability, .dataMessage (.sendEntry Sample.beyondTheEnd)]
  have hpanics : ((Transition.run PeerRun.step (start ({} : IdealStore) .betty 0 0 [])
      [.bindStaticToken writeCapability]).bind fun s =>
        (s.dataReceiver.onMessage s.reconciler.shared (.sendEntry Sample.beyondTheEnd)).map
          fun res => (s.dataFailed, res.1)) = some (false, .error .panic) := by rfl
  obtain ⟨s, hs, hmessage⟩ := Option.bind_eq_some_iff.mp hpanics
  obtain ⟨⟨res, sh⟩, hsh, heq⟩ := Option.map_eq_some_iff.mp hmessage
  obtain ⟨hok, rfl⟩ := Prod.mk.inj heq
  have hstep : ∃ s', PeerRun.step s (.dataMessage (.sendEntry Sample.beyondTheEnd)) = some s' := by
    simp only [PeerRun.step, hok, hsh, Bool.false_eq_true, if_false, Option.map_some]
    exact ⟨_, rfl⟩
  obtain ⟨s', hs'⟩ := hstep
  exact (hsound.steps [.bindStaticToken writeCapability] _ List.prefix_rfl s s' hs hs').in_range
    ⟨sh, hsh⟩

end Samples

end PeerRun

end IrohWillow
