import IrohWillow.Net.Transport

/-!
# Frames that do not fit

`prepare_channel` gives both channels the capacity `CHANNEL_CAP`. A message is
put into the outbound buffer as a whole, and taken out of the inbound buffer as
a whole. Nothing compares the length of a frame with the capacity: not
`send_message`, whose messages hold capabilities of any length, and not
`decode_from`, whose header comes from the peer.
-/

namespace IrohWillow.Transport

open Transition LengthPrefixed

variable {M : Type} [Postcard M]

/-! ## Sending -/

/-- There are guarantees for that many bytes. -/
def Enough (g : Guarantees) (len : Nat) : Prop :=
  match g with
  | .unlimited => True
  | .limited current => len ≤ current.val

/-- On an open channel of capacity `CHANNEL_CAP` with enough guarantees, the
message can be sent once the buffer is drained. -/
def SendPossible (m : M) : Prop :=
  ∀ (c : Inner) (reader sender : Waker), c.maxBufferSize = channelCap → c.isClosed = false →
    Enough c.guarantees (Message.encodedLen m) →
    ((c.pollReadBytes reader).2.pollSendMessage m sender).1 = .ready (.ok ())

/-- A drained channel is open, empty, and has the guarantees it had. -/
theorem pollReadBytes_drained (c : Inner) (waker : Waker) :
    (c.pollReadBytes waker).2.buf = [] ∧
      (c.pollReadBytes waker).2.maxBufferSize = c.maxBufferSize ∧
      (c.pollReadBytes waker).2.isClosed = c.isClosed ∧
      (c.pollReadBytes waker).2.guarantees = c.guarantees := by
  rcases c.pollReadBytes_cases waker with ⟨-, h⟩ | ⟨hbuf, -, h⟩ | ⟨hbuf, -, h⟩
  · rw [h]
    exact ⟨rfl, rfl, rfl, rfl⟩
  · rw [h]
    exact ⟨hbuf, rfl, rfl, rfl⟩
  · rw [h]
    exact ⟨hbuf, rfl, rfl, rfl⟩

/-- A message can be sent exactly when its frame is not longer than the
buffer. -/
theorem sendPossible_iff (m : M) : SendPossible m ↔ Message.encodedLen m ≤ channelCap := by
  have hlen := Message.length_encode m
  constructor
  · intro h
    by_contra hlong
    have hsent := h { maxBufferSize := channelCap, guarantees := .unlimited } 0 0 rfl rfl trivial
    rcases Inner.pollSendMessage_eq
        (Inner.pollReadBytes { maxBufferSize := channelCap, guarantees := .unlimited } 0).2 m 0 with
      ⟨hclosed, -⟩ | ⟨-, -, heq⟩ | ⟨-, hfit, -⟩
    · cases hclosed
    · rw [heq] at hsent
      cases hsent
    · have hcap := hfit.trans (min_le_left _ _)
      replace hcap : (Encoder.encode m).length ≤ channelCap - 0 := hcap
      omega
  · intro hfits c reader sender hmax hopen henough
    obtain ⟨hbuf, hmax', hopen', hguarantees⟩ := pollReadBytes_drained c reader
    have hget : Message.encodedLen m ≤ c.guarantees.get := by
      cases hg : c.guarantees with
      | unlimited =>
          have : channelCap ≤ Guarantees.unlimited.get := by decide
          omega
      | limited current =>
          rw [hg] at henough
          exact henough
    rcases Inner.pollSendMessage_eq (c.pollReadBytes reader).2 m sender with
      ⟨hclosed, -⟩ | ⟨-, hfull, -⟩ | ⟨-, -, heq⟩
    · rw [hopen', hopen] at hclosed
      cases hclosed
    · rw [hlen, Inner.remainingWriteCapacity, hbuf, hmax', hmax, hguarantees] at hfull
      exact absurd hfull (not_lt.mpr (le_min hfits hget))
    · rw [heq]

/-! ## Receiving -/

/-- The peer has written the bytes into the stream, and sends nothing more. -/
def ofStream (M : Type) (bytes : List Byte) : Transport M :=
  { start M channelCap channelCap .unlimited with stream := bytes, finished := true }

/-- The inbound buffer is full and asks for more data: neither the writer nor
the receiver can go on. -/
def Wedged (s : Transport M) : Prop :=
  s.inbound.buf.length = s.inbound.maxBufferSize ∧
    Decoder.decodeFrom (T := M) s.inbound.buf = .ok .needMoreData

/-- No reachable state is wedged. -/
def NeverWedges (M : Type) [Postcard M] (bytes : List Byte) : Prop :=
  ∀ s, Reachable step (fun _ _ => True) (ofStream M bytes) s → ¬ s.Wedged

/-- The ends of the stream that the decoder can stand at. -/
inductive Boundary (M : Type) [Postcard M] (bytes : List Byte) : List Byte → Prop
  | start : Boundary M bytes bytes
  | next {rest : List Byte} {item : M} {consumed : Nat} (h : Boundary M bytes rest)
      (hitem : Decoder.decodeFrom rest = .ok (.decoded item consumed)) :
      Boundary M bytes (rest.drop consumed)

/-- No frame that the decoder comes to, and that is followed by enough bytes to
fill the buffer, is longer than the buffer. -/
def FramesFit (M : Type) [Postcard M] (bytes : List Byte) : Prop :=
  ∀ rest, Boundary M bytes rest → channelCap ≤ rest.length → frameEnd rest ≤ channelCap

/-! ### Frames that fit do not wedge -/

/-- The inbound buffer starts where the decoder stands. -/
structure AtBoundary (bytes : List Byte) (s : Transport M) : Prop where
  finished : s.finished = true
  inMax : s.inbound.maxBufferSize = channelCap
  boundary : ∃ rest, Boundary M bytes (s.inbound.buf ++ rest) ∧
    (s.ended = false → rest = s.chunk ++ s.stream)

theorem atBoundary_ofStream (bytes : List Byte) : AtBoundary bytes (ofStream M bytes) :=
  ⟨rfl, rfl, bytes, .start, fun _ => rfl⟩

variable {bytes : List Byte} {s s' : Transport M}

theorem AtBoundary.write (h : AtBoundary bytes s) {waker : Waker}
    (hstep : s.step (.write waker) = some s') : AtBoundary bytes s' := by
  simp only [step] at hstep
  split at hstep
  · rename_i hguard
    obtain ⟨rest, hrest, heq⟩ := h.boundary
    obtain rfl := heq hguard.1
    rcases s.inbound.pollWrite_cases s.chunk waker with ⟨-, hw⟩ | ⟨-, -, hw⟩ | ⟨-, -, len, -, hw⟩
    · rw [hw] at hstep
      obtain rfl := Option.some.inj hstep
      exact ⟨h.finished, h.inMax, _, hrest, by simp⟩
    · rw [hw] at hstep
      obtain rfl := Option.some.inj hstep
      exact ⟨h.finished, h.inMax, _, hrest, fun _ => rfl⟩
    · rw [hw] at hstep
      obtain rfl := Option.some.inj hstep
      refine ⟨h.finished, h.inMax, s.chunk.drop len ++ s.stream, ?_, fun _ => rfl⟩
      show Boundary M bytes ((s.inbound.buf ++ s.chunk.take len) ++ (s.chunk.drop len ++ _))
      rw [List.append_assoc, ← List.append_assoc (s.chunk.take len), List.take_append_drop]
      exact hrest
  · cases hstep

theorem AtBoundary.recv (h : AtBoundary bytes s) {waker : Waker}
    (hstep : s.step (.recv waker) = some s') : AtBoundary bytes s' := by
  simp only [step] at hstep
  obtain ⟨rest, hrest, heq⟩ := h.boundary
  rcases s.inbound.pollRecvMessage_cases (M := M) waker with
    ⟨-, -, hr⟩ | ⟨e, -, hr⟩ | ⟨-, -, -, hr⟩ | ⟨-, -, hr⟩ | ⟨item, consumed, hitem, hr⟩
  · rw [hr] at hstep
    obtain rfl := Option.some.inj hstep
    exact ⟨h.finished, h.inMax, rest, hrest, heq⟩
  · rw [hr] at hstep
    obtain rfl := Option.some.inj hstep
    exact ⟨h.finished, h.inMax, rest, hrest, heq⟩
  · rw [hr] at hstep
    obtain rfl := Option.some.inj hstep
    exact ⟨h.finished, h.inMax, rest, hrest, heq⟩
  · rw [hr] at hstep
    obtain rfl := Option.some.inj hstep
    exact ⟨h.finished, h.inMax, rest, hrest, heq⟩
  · rw [hr] at hstep
    obtain rfl := Option.some.inj hstep
    obtain ⟨body, hcut, -⟩ := Message.decodeFrom_eq_decoded_iff.mp hitem
    have hle := (cut_length_le hcut).2.2
    have hnext := hrest.next (Message.decodeFrom_append hitem rest)
    rw [List.drop_append_of_le_length hle] at hnext
    exact ⟨h.finished, h.inMax, rest, hnext, heq⟩

theorem AtBoundary.step (h : AtBoundary bytes s) {a : Action M} (hstep : s.step a = some s') :
    AtBoundary bytes s' := by
  obtain ⟨rest, hrest, heq⟩ := h.boundary
  cases a with
  | send item waker =>
      simp only [Transport.step] at hstep
      split at hstep
      all_goals
        obtain rfl := Option.some.inj hstep
        exact ⟨h.finished, h.inMax, rest, hrest, heq⟩
  | addGuarantees amount =>
      obtain rfl := Option.some.inj hstep
      exact ⟨h.finished, h.inMax, rest, hrest, heq⟩
  | closeSender =>
      obtain rfl := Option.some.inj hstep
      exact ⟨h.finished, h.inMax, rest, hrest, heq⟩
  | readBytes waker =>
      simp only [Transport.step, h.finished, if_true] at hstep
      cases hstep
  | readChunk len =>
      simp only [Transport.step] at hstep
      split at hstep
      · rename_i hguard
        obtain rfl := Option.some.inj hstep
        obtain rfl := heq hguard.1
        refine ⟨h.finished, h.inMax, _, hrest, fun _ => ?_⟩
        show s.chunk ++ s.stream = s.stream.take len ++ s.stream.drop len
        rw [hguard.2.1, List.take_append_drop]
        rfl
      · cases hstep
  | write waker => exact h.write hstep
  | endOfStream =>
      simp only [Transport.step] at hstep
      split at hstep
      · obtain rfl := Option.some.inj hstep
        exact ⟨h.finished, h.inMax, rest, hrest, by simp⟩
      · cases hstep
  | recv waker => exact h.recv hstep

/-- A wedged buffer is the beginning of a frame that is too long. -/
theorem AtBoundary.not_framesFit (h : AtBoundary bytes s) (hwedged : s.Wedged) :
    ¬ FramesFit M bytes := by
  intro hfit
  obtain ⟨hfull, hmore⟩ := hwedged
  obtain ⟨rest, hrest, -⟩ := h.boundary
  rw [h.inMax] at hfull
  have hcap : 4 ≤ channelCap := by decide
  have hheader : 4 ≤ s.inbound.buf.length := by omega
  have hend := frameEnd_append hheader rest
  have hlong : s.inbound.buf.length < frameEnd s.inbound.buf := by
    have hcut := (Message.decodeFrom_eq_needMoreData_iff _).mp hmore
    unfold cut at hcut
    split at hcut
    · omega
    · cases hcut
  have hle := hfit _ hrest (by rw [List.length_append]; omega)
  omega

/-! ### Frames that are too long wedge -/

/-- The decoder stands at the boundary, with nothing in the buffer. -/
structure Aligned (rest : List Byte) (s : Transport M) : Prop where
  ended : s.ended = false
  chunk : s.chunk = []
  stream : s.stream = rest
  buf : s.inbound.buf = []
  inMax : s.inbound.maxBufferSize = channelCap
  isClosed : s.inbound.isClosed = false
  guarantees : s.inbound.guarantees = .unlimited

/-- Up to a whole buffer can be read from the stream and written at once. -/
theorem Aligned.fill {rest : List Byte} (h : Aligned rest s) {len : Nat} (hpos : 0 < len)
    (hcap : len ≤ channelCap) (hlen : len ≤ rest.length) :
    ∃ s', run step s [.readChunk len, .write 0] = some s' ∧ s'.ended = false ∧ s'.chunk = [] ∧
      s'.stream = rest.drop len ∧ s'.inbound.buf = rest.take len ∧
      s'.inbound.maxBufferSize = channelCap ∧ s'.inbound.isClosed = false ∧
      s'.inbound.guarantees = .unlimited := by
  have htake : (rest.take len).length = len := List.length_take_of_le hlen
  have hdrop : (rest.take len).drop len = [] := List.drop_of_length_le htake.le
  have hroom : s.inbound.remainingWriteCapacity = channelCap := by
    rw [Inner.remainingWriteCapacity, h.buf, h.inMax, h.guarantees]
    decide
  have hread : s.step (.readChunk len) =
      some { s with chunk := rest.take len, stream := rest.drop len } := by
    simp only [step]
    rw [if_pos ⟨h.ended, h.chunk, hpos, by rw [h.inMax]; exact hcap, by rw [h.stream]; exact hlen⟩,
      h.stream]
  have hne : rest.take len ≠ [] := by
    intro hnil
    rw [hnil] at htake
    exact absurd htake.symm hpos.ne'
  obtain ⟨c, hwrite, hbuf, hmax, hopen, hguarantees⟩ : ∃ c : Inner,
      s.inbound.pollWrite (rest.take len) 0 = (.ready (.ok len), c) ∧ c.buf = rest.take len ∧
        c.maxBufferSize = channelCap ∧ c.isClosed = false ∧ c.guarantees = .unlimited := by
    rcases s.inbound.pollWrite_cases (rest.take len) 0 with
      ⟨hc, -⟩ | ⟨-, hfull, -⟩ | ⟨-, -, n, hn, hw⟩
    · rw [h.isClosed] at hc
      cases hc
    · rw [hroom] at hfull
      cases hfull
    · obtain rfl : n = len := by
        rw [hn, hroom, htake]
        omega
      refine ⟨_, hw, ?_, h.inMax, h.isClosed, ?_⟩
      · show s.inbound.buf ++ (rest.take n).take n = rest.take n
        rw [h.buf, List.take_take, min_self]
        rfl
      · show s.inbound.guarantees.use n = _
        rw [h.guarantees]
        rfl
  refine ⟨{ s with inbound := c, chunk := [], stream := rest.drop len }, ?_, h.ended, rfl, rfl,
    hbuf, hmax, hopen, hguarantees⟩
  simp only [run, hread, Option.bind_some]
  simp only [step]
  rw [if_pos ⟨h.ended, hne⟩, hwrite]
  show some _ = some _
  rw [hdrop]

/-- A frame that fits is read, and the decoder goes on to the next. -/
theorem Aligned.next {rest : List Byte} (h : Aligned rest s) {item : M} {consumed : Nat}
    (hitem : Decoder.decodeFrom rest = .ok (.decoded item consumed)) (hfit : consumed ≤ channelCap)
    : ∃ s', Reachable step (fun _ _ => True) s s' ∧ Aligned (rest.drop consumed) s' := by
  obtain ⟨body, hcut, hbody⟩ := Message.decodeFrom_eq_decoded_iff.mp hitem
  obtain ⟨hconsumed, hfour, hle⟩ := cut_length_le hcut
  obtain ⟨s₁, hrun, hended, hchunk, hstream, hbuf, hmax, hopen, hguarantees⟩ :=
    h.fill (by omega) hfit hle
  have hdecode : Decoder.decodeFrom s₁.inbound.buf = .ok (.decoded item consumed) := by
    rw [hbuf]
    exact Message.decodeFrom_eq_decoded_iff.mpr ⟨body, cut_take hcut, hbody⟩
  have hne : s₁.inbound.buf ≠ [] := by
    intro hnil
    rw [hnil] at hdecode
    cases hdecode
  have hrecv : s₁.inbound.pollRecvMessage (T := M) 0 = (.ready (some (.ok item)),
      { s₁.inbound with buf := s₁.inbound.buf.drop consumed, writeWakers := [] }) := by
    unfold Inner.pollRecvMessage
    rw [if_neg (fun hend => hne hend.2), hdecode]
    rfl
  have hstep : s₁.step (.recv 0) = some { s₁ with
      inbound := { s₁.inbound with buf := s₁.inbound.buf.drop consumed, writeWakers := [] }
      yielded := s₁.yielded ++ [some (.ok item)] } := by
    simp only [step, hrecv]
  refine ⟨_, (Reachable.of_run_all hrun).tail trivial hstep, hended, hchunk, hstream, ?_, hmax,
    hopen, hguarantees⟩
  · show s₁.inbound.buf.drop consumed = []
    rw [hbuf, List.drop_of_length_le (by rw [List.length_take]; omega)]

/-- A frame that is too long fills the buffer. -/
theorem Aligned.wedge {rest : List Byte} (h : Aligned rest s) (hlen : channelCap ≤ rest.length)
    (hlong : channelCap < frameEnd rest) :
    ∃ s', Reachable step (fun _ _ => True) s s' ∧ s'.Wedged := by
  have hcap : 4 ≤ channelCap := by decide
  obtain ⟨s₁, hrun, -, -, -, hbuf, hmax, -, -⟩ := h.fill (by omega) le_rfl hlen
  have htake : (rest.take channelCap).length = channelCap := List.length_take_of_le hlen
  refine ⟨s₁, .of_run_all hrun, ?_, ?_⟩
  · rw [hbuf, hmax, htake]
  · rw [hbuf, Message.decodeFrom_eq_needMoreData_iff]
    apply if_pos
    right
    rw [htake, ← frameEnd_of_isPrefix (List.take_prefix _ rest) (by omega)]
    exact hlong

/-- Where the decoder can stand, it stands in some run, unless the channel is
wedged in another. -/
theorem Boundary.aligned {rest : List Byte} (hnever : NeverWedges M bytes)
    (h : Boundary M bytes rest) :
    ∃ s, Reachable step (fun _ _ => True) (ofStream M bytes) s ∧ Aligned rest s := by
  induction h with
  | start => exact ⟨_, .refl, rfl, rfl, rfl, rfl, rfl, rfl, rfl⟩
  | @next rest item consumed _ hitem ih =>
      obtain ⟨s, hs, haligned⟩ := ih
      obtain ⟨body, hcut, -⟩ := Message.decodeFrom_eq_decoded_iff.mp hitem
      obtain ⟨hconsumed, -, hle⟩ := cut_length_le hcut
      by_cases hfit : frameEnd rest ≤ channelCap
      · obtain ⟨s', hs', hnext⟩ := haligned.next hitem (hconsumed ▸ hfit)
        exact ⟨s', hs.trans hs', hnext⟩
      · obtain ⟨s', hs', hwedged⟩ := haligned.wedge (by omega) (not_le.mp hfit)
        exact absurd hwedged (hnever s' (hs.trans hs'))

theorem neverWedges_iff (bytes : List Byte) : NeverWedges M bytes ↔ FramesFit M bytes := by
  constructor
  · intro hnever rest hrest hlen
    by_contra hlong
    obtain ⟨s, hs, haligned⟩ := hrest.aligned hnever
    obtain ⟨s', hs', hwedged⟩ := haligned.wedge hlen (not_le.mp hlong)
    exact hnever s' (hs.trans hs') hwedged
  · intro hfit s hs hwedged
    have hinv := hs.invariant (atBoundary_ofStream bytes)
      fun _ _ _ hinv _ hstep => AtBoundary.step hinv hstep
    exact hinv.not_framesFit hwedged hfit

/-- **Frames and buffers.** A message can be sent once the buffer is drained,
and a stream never wedges the inbound channel, exactly when the frame of the
message and the frames of the stream are not longer than the buffers. -/
theorem no_wedge_iff_frames_fit (m : M) (bytes : List Byte) :
    (SendPossible m ∧ NeverWedges M bytes) ↔
      (Message.encodedLen m ≤ channelCap ∧ FramesFit M bytes) :=
  and_congr (sendPossible_iff m) (neverWedges_iff bytes)

/-- A header that announces `2 ^ 32 - 1` bytes, followed by zeros, wedges the
channel. -/
theorem long_header_wedges :
    ¬ ∀ bytes : List Byte, NeverWedges Message.Sample bytes := by
  intro h
  have hstart : Aligned (M := Message.Sample) ([255, 255, 255, 255] ++ List.replicate 65532 0)
      (ofStream Message.Sample ([255, 255, 255, 255] ++ List.replicate 65532 0)) :=
    ⟨rfl, rfl, rfl, rfl, rfl, rfl, rfl⟩
  obtain ⟨s, hs, hwedged⟩ := hstart.wedge
    (by rw [List.length_append, List.length_replicate]; decide)
    (by rw [frameEnd_append (by decide)]; decide)
  exact h _ s hs hwedged

end IrohWillow.Transport
