import IrohWillow.Net.Transport
import IrohWillow.Net.ChannelSetup

/-!
# All channels between two peers

After the setup each peer sends with `ChannelSenders::send`, which takes the sender of
the message's channel, and its loops read from the receivers of their channels. Every
stream carries one `Transport` in each direction.

Whatever the order in which Betty accepts the streams, what a peer receives on a channel
is what the other one has sent on it, in order, and always fits the type of the receiver.
-/

namespace IrohWillow

open Transition

/-- `prepare_channel`: the guarantees of a new sender. -/
def Channel.startGuarantees : Channel → Guarantees
  | .control => .unlimited
  | .logical _ => .limited 0

/-- The channels of both peers, and what each has on its way to the other. -/
structure Link [PaiScheme] where
  channels : Role → Channels StreamId StreamId
  /-- What the peer writes on each stream. -/
  streams : Role → StreamId → Transport Message
  /-- The messages that `ChannelSenders::send` took from the peer, in order. -/
  sent : Role → List Message := fun _ => []

namespace Link

/-- A step of one of the tasks. -/
inductive Action [PaiScheme] where
  /-- The peer polls `ChannelSenders::send`. -/
  | send (p : Role) (message : Message) (waker : Waker)
  /-- `ChannelSenders::close_all` -/
  | closeAll (p : Role)
  /-- The control loop adds the guarantees that the other peer has issued. -/
  | addGuarantees (p : Role) (channel : LogicalChannel) (amount : U64)
  /-- The peer polls the receiver of a channel. -/
  | recv (p : Role) (channel : Channel) (waker : Waker)
  /-- A step of `send_loop` of the peer, or of `recv_loop` at the other end. -/
  | network (p : Role) (stream : StreamId) (a : Transport.Action Message)

section Model

variable [PaiScheme]

/-- The steps of `send_loop` and `recv_loop`. -/
def ofNetwork : Transport.Action Message → Bool
  | .readBytes _ | .readChunk _ | .write _ | .endOfStream => true
  | _ => false

/-- Set what one peer writes on one stream. -/
def setStream (s : Link) (p : Role) (stream : StreamId) (t : Transport Message) : Link :=
  { s with streams := Function.update s.streams p (Function.update (s.streams p) stream t) }

variable [Postcard Message]

/-- A step on one stream. -/
def onStream (s : Link) (p : Role) (stream : StreamId) (a : Transport.Action Message) :
    Option Link :=
  ((s.streams p stream).step a).map (s.setStream p stream)

/-- The sender takes the message now. -/
def takes (s : Link) (p : Role) (message : Message) (waker : Waker) : Bool :=
  let inner := (s.streams p ((s.channels p).send.get message.channel)).outbound
  decide ((inner.pollSendMessage message waker).1 = .ready (.ok ()))

/-- One step; `none` when the task is not at that point. -/
def step (s : Link) : Action → Option Link
  | .send p message waker =>
      (s.onStream p ((s.channels p).send.get message.channel) (.send message waker)).map fun s' =>
        if s.takes p message waker then
          { s' with sent := Function.update s.sent p (s.sent p ++ [message]) }
        else s'
  | .closeAll p =>
      Channel.all.foldlM (fun s ch => s.onStream p ((s.channels p).send.get ch) .closeSender) s
  | .addGuarantees p channel amount =>
      s.onStream p ((s.channels p).send.get (.logical channel)) (.addGuarantees amount)
  | .recv p channel waker => s.onStream p.other ((s.channels p).recv.get channel) (.recv waker)
  | .network p stream a => if ofNetwork a then s.onStream p stream a else none

/-- After `prepare_channels` at both ends. -/
def start (channels : Role → Channels StreamId StreamId) : Link where
  channels := channels
  streams p stream := .start Message channelCap channelCap
    (if stream = (channels p).send.controlSend then Channel.startGuarantees .control
      else .limited 0)

/-- What the receiver of a channel has yielded. -/
def received (s : Link) (p : Role) (ch : Channel) : List (Option (Except ReadError Message)) :=
  (s.streams p.other ((s.channels p).recv.get ch)).yielded

end Model

/-! ## Streams and channels -/

section Routing

variable [PaiScheme] [Postcard Message] {opened : Channel → StreamId} {s s' : Link}

/-- Both ends use the stream that was opened for a channel. -/
def Paired (opened : Channel → StreamId) (channels : Role → Channels StreamId StreamId) : Prop :=
  ∀ p ch, (channels p).send.get ch = opened ch ∧ (channels p).recv.get ch = opened ch

/-- On the stream of a channel are the messages of that channel. -/
structure Routes (opened : Channel → StreamId) (s : Link) : Prop where
  paired : Paired opened s.channels
  inv : ∀ p ch, (s.streams p (opened ch)).Inv channelCap channelCap
  sent : ∀ p ch, (s.streams p (opened ch)).sent = (s.sent p).filter (·.channel = ch)

theorem routes_start {channels : Role → Channels StreamId StreamId}
    (h : Paired opened channels) : Routes opened (start channels) where
  paired := h
  inv _ _ := Transport.inv_start _ _ _
  sent _ _ := rfl

omit [Postcard Message] in
@[simp] theorem streams_setStream_self (s : Link) (p : Role) (stream : StreamId)
    (t : Transport Message) : (s.setStream p stream t).streams p stream = t := by
  simp [setStream]

omit [Postcard Message] in
theorem streams_setStream_of_ne (s : Link) {p p' : Role} {stream stream' : StreamId}
    (t : Transport Message) (hne : ¬ (p' = p ∧ stream' = stream)) :
    (s.setStream p stream t).streams p' stream' = s.streams p' stream' := by
  by_cases hp : p' = p
  · subst hp
    have hstream : stream' ≠ stream := fun h => hne ⟨rfl, h⟩
    simp [setStream, hstream]
  · simp [setStream, hp]

/-- Only a poll for sending adds to what was sent. -/
theorem sent_step {t t' : Transport Message} {a : Transport.Action Message}
    (hstep : t.step a = some t') (ha : ∀ message waker, a ≠ .send message waker) :
    t'.sent = t.sent := by
  cases a with
  | send message waker => exact absurd rfl (ha message waker)
  | addGuarantees amount =>
      obtain rfl := Option.some.inj hstep
      rfl
  | closeSender =>
      obtain rfl := Option.some.inj hstep
      rfl
  | readBytes waker =>
      simp only [Transport.step] at hstep
      split at hstep
      · cases hstep
      · split at hstep <;>
          · obtain rfl := Option.some.inj hstep
            rfl
  | readChunk len =>
      simp only [Transport.step] at hstep
      split at hstep
      · obtain rfl := Option.some.inj hstep
        rfl
      · cases hstep
  | write waker =>
      simp only [Transport.step] at hstep
      split at hstep
      · split at hstep <;>
          · obtain rfl := Option.some.inj hstep
            rfl
      · cases hstep
  | endOfStream =>
      simp only [Transport.step] at hstep
      split at hstep
      · obtain rfl := Option.some.inj hstep
        rfl
      · cases hstep
  | recv waker =>
      simp only [Transport.step] at hstep
      split at hstep <;>
        · obtain rfl := Option.some.inj hstep
          rfl

/-- A poll for sending adds the message exactly when it is taken. -/
theorem sent_send {t t' : Transport Message} {message : Message} {waker : Waker}
    (hstep : t.step (.send message waker) = some t') :
    t'.sent = if (t.outbound.pollSendMessage message waker).1 = .ready (.ok ())
      then t.sent ++ [message] else t.sent := by
  simp only [Transport.step] at hstep
  split at hstep <;> rename_i heq
  · obtain rfl := Option.some.inj hstep
    rw [heq, if_pos rfl]
  · obtain rfl := Option.some.inj hstep
    rw [heq, if_neg (by simp)]
  · obtain rfl := Option.some.inj hstep
    rw [heq, if_neg (by simp)]

/-- A step on one stream that is no poll for sending. -/
theorem Routes.onStream (hlaw : Postcard.RoundTrips Message) (h : Routes opened s) {p : Role}
    {stream : StreamId} {a : Transport.Action Message}
    (ha : ∀ message waker, a ≠ .send message waker) (hstep : s.onStream p stream a = some s') :
    Routes opened s' := by
  obtain ⟨t, ht, rfl⟩ := Option.map_eq_some_iff.mp hstep
  refine ⟨h.paired, fun p' ch => ?_, fun p' ch => ?_⟩
  · by_cases hself : p' = p ∧ opened ch = stream
    · obtain ⟨rfl, rfl⟩ := hself
      rw [streams_setStream_self]
      exact (h.inv p' ch).step hlaw (by decide) ht
    · rw [streams_setStream_of_ne s t hself]
      exact h.inv p' ch
  · by_cases hself : p' = p ∧ opened ch = stream
    · obtain ⟨rfl, rfl⟩ := hself
      rw [streams_setStream_self, sent_step ht ha]
      exact h.sent p' ch
    · rw [streams_setStream_of_ne s t hself]
      exact h.sent p' ch

/-- `ChannelSenders::send` puts the message on the stream of its channel. -/
theorem Routes.send (hlaw : Postcard.RoundTrips Message) (hopened : Function.Injective opened)
    (h : Routes opened s) {p : Role} {message : Message} {waker : Waker}
    (hstep : s.step (.send p message waker) = some s') : Routes opened s' := by
  simp only [step, Link.onStream, Option.map_map] at hstep
  obtain ⟨t, ht, rfl⟩ := Option.map_eq_some_iff.mp hstep
  have hstream : (s.channels p).send.get message.channel = opened message.channel :=
    (h.paired p _).1
  have htakes : s.takes p message waker = true ↔
      ((s.streams p (opened message.channel)).outbound.pollSendMessage message waker).1 =
        .ready (.ok ()) := by
    rw [takes, decide_eq_true_iff, hstream]
  rw [hstream] at ht
  have hsent := sent_send ht
  simp only [Function.comp_apply, hstream]
  -- the invariant of the streams does not see the log
  have hinv : ∀ p' ch, ((s.setStream p (opened message.channel) t).streams p'
      (opened ch)).Inv channelCap channelCap := by
    intro p' ch
    by_cases hself : p' = p ∧ opened ch = opened message.channel
    · obtain ⟨rfl, hch⟩ := hself
      rw [hch, streams_setStream_self]
      exact (h.inv p' message.channel).step hlaw (by decide) ht
    · rw [streams_setStream_of_ne s t hself]
      exact h.inv p' ch
  split
  · rename_i hyes
    rw [if_pos (htakes.mp hyes)] at hsent
    refine ⟨h.paired, hinv, fun p' ch => ?_⟩
    show ((s.setStream p (opened message.channel) t).streams p' (opened ch)).sent =
      (Function.update s.sent p (s.sent p ++ [message]) p').filter _
    by_cases hp : p' = p
    · subst hp
      rw [Function.update_self, List.filter_append, ← h.sent p' ch]
      by_cases hch : ch = message.channel
      · subst hch
        rw [streams_setStream_self, hsent]
        simp
      · rw [streams_setStream_of_ne s t fun hself => hch (hopened hself.2)]
        simp [Ne.symm hch]
    · rw [streams_setStream_of_ne s t fun hself => hp hself.1, Function.update_of_ne hp]
      exact h.sent p' ch
  · rename_i hno
    rw [if_neg fun hyes => hno (htakes.mpr hyes)] at hsent
    refine ⟨h.paired, hinv, fun p' ch => ?_⟩
    by_cases hself : p' = p ∧ opened ch = opened message.channel
    · obtain ⟨rfl, hch⟩ := hself
      obtain rfl := hopened hch
      rw [streams_setStream_self, hsent]
      exact h.sent p' _
    · rw [streams_setStream_of_ne s t hself]
      exact h.sent p' ch

theorem Routes.closeAll (hlaw : Postcard.RoundTrips Message) {p : Role} {chs : List Channel}
    (h : Routes opened s)
    (hstep : chs.foldlM (fun (s : Link) ch => s.onStream p ((s.channels p).send.get ch)
      .closeSender) s = some s') : Routes opened s' := by
  induction chs generalizing s with
  | nil =>
      obtain rfl := Option.some.inj hstep
      exact h
  | cons ch rest ih =>
      rw [List.foldlM_cons] at hstep
      obtain ⟨t, ht, hrest⟩ := Option.bind_eq_some_iff.mp hstep
      exact ih (h.onStream hlaw (fun _ _ => by simp) ht) hrest

theorem Routes.step (hlaw : Postcard.RoundTrips Message) (hopened : Function.Injective opened)
    (h : Routes opened s) {a : Action} (hstep : s.step a = some s') : Routes opened s' := by
  cases a with
  | send p message waker => exact h.send hlaw hopened hstep
  | closeAll p => exact Routes.closeAll hlaw h hstep
  | addGuarantees p channel amount => exact h.onStream hlaw (fun _ _ => by simp) hstep
  | recv p channel waker => exact h.onStream hlaw (fun _ _ => by simp) hstep
  | network p stream a =>
      simp only [Link.step] at hstep
      split at hstep
      · rename_i hnet
        refine h.onStream hlaw (fun message waker ha => ?_) hstep
        rw [ha] at hnet
        cases hnet
      · cases hstep

/-! ## The setup pairs the streams -/

/-- The channels of both peers. -/
def endpoints (alfie betty : Channels StreamId StreamId) : Role → Channels StreamId StreamId
  | .alfie => alfie
  | .betty => betty

omit [PaiScheme] [Postcard Message] in
/-- Both peers find the stream that Alfie has opened for a channel, in whatever order
Betty accepts the streams. -/
theorem exists_paired (opened : Channel → StreamId) {order : List Channel}
    (horder : order.Perm Channel.all) :
    ∃ alfie betty, prepareChannels (openChannelStreams opened) = .ok alfie ∧
      acceptChannels (order.map fun ch => (opened ch, ch.id)) = .ok betty ∧
      Paired opened (endpoints alfie betty) := by
  have halfie : ∀ ch, (openChannelStreams opened).lookup ch ≠ none := by
    intro ch h
    refine (ChannelStreams.lookup_eq_none_iff _ ch).mp h ?_
    simp [openChannelStreams, ch.mem_all]
  obtain ⟨alfie, hok, hget⟩ | ⟨ch, hmissing, -⟩ := finds_prepareChannels (openChannelStreams opened)
  case inr => exact absurd hmissing (halfie ch)
  have hids : ((order.map fun ch => (opened ch, ch.id)).map (·.2)).Perm
      (Channel.all.map Channel.id) := by
    rw [List.map_map]
    exact horder.map Channel.id
  obtain ⟨betty, hbetty, hown⟩ := acceptChannels_of_perm hids
  refine ⟨alfie, betty, hok, hbetty, fun p ch => ?_⟩
  cases p with
  | alfie =>
      have hmem := ChannelStreams.mem_of_lookup (hget ch).1
      obtain ⟨c, -, hc⟩ := List.mem_map.mp hmem
      obtain ⟨rfl, hstream⟩ := Prod.ext_iff.mp hc
      exact ⟨hstream.symm, (hget c).2.trans hstream.symm⟩
  | betty =>
      obtain ⟨hmem, hrecv⟩ := hown ch
      obtain ⟨c, -, hc⟩ := List.mem_map.mp hmem
      obtain ⟨hstream, hid⟩ := Prod.ext_iff.mp hc
      obtain rfl := Channel.id_injective hid
      exact ⟨hstream.symm, hrecv.trans hstream.symm⟩

/-! ## Delivery -/

/-- The peer has received `got` on the channel, and then `ends` times its end; `rest` is
still to come. -/
structure Delivers (s : Link) (p : Role) (ch : Channel) (got rest : List Message) (ends : Nat) :
    Prop where
  sent : (s.sent p.other).filter (·.channel = ch) = got ++ rest
  received : s.received p ch = got.map (fun m => some (.ok m)) ++ List.replicate ends none
  done : 0 < ends → rest = []

theorem Routes.delivers (h : Routes opened s) (p : Role) (ch : Channel) :
    ∃ got rest ends, Delivers s p ch got rest ends := by
  obtain ⟨got, rest, ends, hp⟩ := (h.inv p.other ch).progress
  refine ⟨got, rest, ends, ?_, ?_, fun hends => (hp.done hends).1⟩
  · rw [← h.sent p.other ch, hp.sent]
  · rw [received, (h.paired p ch).2, hp.yielded]

omit [Postcard Message] in
/-- The messages of a channel fit its receiver. -/
theorem exists_items {ch : LogicalChannel} {got : List Message}
    (h : ∀ m ∈ got, m.channel = .logical ch) :
    ∃ items : List ch.Item, got.map ch.tryInto = items.map some ∧
      (got.map fun m => some (.ok m)).map (MessageReceiver.convert ch) =
        items.map fun item => some (.ok item) := by
  induction got with
  | nil => exact ⟨[], rfl, rfl⟩
  | cons m got ih =>
      obtain ⟨items, hitems, hconvert⟩ := ih fun m' hm' => h m' (List.mem_cons_of_mem _ hm')
      have hfits := ch.isSome_tryInto m
      rw [h m List.mem_cons_self, decide_eq_true rfl] at hfits
      obtain ⟨item, hitem⟩ := Option.isSome_iff_exists.mp hfits
      refine ⟨item :: items, ?_, ?_⟩
      · rw [List.map_cons, hitem, hitems, List.map_cons]
      · rw [List.map_cons, List.map_cons, hconvert, List.map_cons]
        simp only [MessageReceiver.convert, hitem]

/-- **Every message arrives on its channel.** For every order in which the streams are
accepted and every run: both peers have set up all channels; what a peer has received on
a channel is, in order, a beginning of what the other peer has sent on it, and after the
end of a channel nothing is missing; the receiver of a logical channel could convert every
message, so that it never reports a wrong channel. -/
theorem receives_on_its_channel (hlaw : Postcard.RoundTrips Message)
    (hopened : Function.Injective opened) {order : List Channel}
    (horder : order.Perm Channel.all) :
    ∃ alfie betty, prepareChannels (openChannelStreams opened) = .ok alfie ∧
      acceptChannels (order.map fun ch => (opened ch, ch.id)) = .ok betty ∧
      ∀ s, Reachable step (fun _ _ => True) (start (endpoints alfie betty)) s → ∀ p,
        (∀ ch, ∃ got rest ends, Delivers s p ch got rest ends) ∧
        ∀ ch : LogicalChannel, ∃ (got rest : List Message) (ends : Nat) (items : List ch.Item),
          Delivers s p (.logical ch) got rest ends ∧ got.map ch.tryInto = items.map some ∧
          (s.received p (.logical ch)).map (MessageReceiver.convert ch) =
            items.map (fun item => some (.ok item)) ++ List.replicate ends none := by
  obtain ⟨alfie, betty, halfie, hbetty, hpaired⟩ := exists_paired opened horder
  refine ⟨alfie, betty, halfie, hbetty, fun s hs p => ?_⟩
  have h : Routes opened s :=
    hs.invariant (routes_start hpaired) fun _ _ _ hr _ hstep => hr.step hlaw hopened hstep
  refine ⟨fun ch => h.delivers p ch, fun ch => ?_⟩
  obtain ⟨got, rest, ends, hd⟩ := h.delivers p (.logical ch)
  have hchannel : ∀ m ∈ got, m.channel = .logical ch := by
    intro m hm
    have hmem : m ∈ (s.sent p.other).filter (·.channel = .logical ch) := by
      rw [hd.sent]
      exact List.mem_append_left _ hm
    simpa using (List.mem_filter.mp hmem).2
  obtain ⟨items, hitems, hconvert⟩ := exists_items hchannel
  refine ⟨got, rest, ends, items, hd, hitems, ?_⟩
  rw [hd.received, List.map_append, hconvert, List.map_replicate]
  rfl

end Routing

/-! ## A codec for all messages -/

namespace Sample

open IrohWillow.Sample

instance (n : Nat) : Encodable (Bytes n) :=
  .ofLeftInjection Bytes.toList (fun l => if h : l.length = n then some ⟨l, h⟩ else none)
    fun b => dif_pos b.length_eq

instance : Encodable Path :=
  .ofLeftInjection Path.components (fun l => some (pathOf l))
    fun p => congrArg some (dif_pos ⟨p.componentLength, p.componentCount, p.pathLength⟩)

instance : Encodable (BitVec 256) :=
  .ofLeftInjection BitVec.toFin (fun x => some (.ofFin x)) fun _ => rfl

deriving instance Encodable for Entry, RangeEnd, Range, Range3d, AreaSubspace, Area,
  AreaOfInterest, AccessMode, Delegation, McCapability, SubspaceCapability,
  SetupBindReadCapability, PaiReplySubspaceCapability, HandleType, LogicalChannel,
  SetupBindAreaOfInterest, ReconciliationSendFingerprint, ReconciliationAnnounceEntries,
  ReconciliationSendEntry, DataSendEntry, DataSetMetadata, Fragment, MessageOf

attribute [local instance] countingScheme

instance : Encodable GroupBytes := inferInstanceAs (Encodable (Fragment × Nat))

/-- The `postcard` bytes of `ReconciliationTerminatePayload`; the other messages are
numbered. -/
instance : Postcard Message where
  toIo
    | .reconciliationTerminatePayload isFinal => [12, if isFinal then 1 else 0]
    | message => 255 :: List.replicate (Encodable.encode message) 0
  fromBytes
    | 12 :: 0 :: _ => some (.reconciliationTerminatePayload false)
    | 12 :: 1 :: _ => some (.reconciliationTerminatePayload true)
    | 255 :: zeros => Encodable.decode zeros.length
    | _ => none

theorem roundTrips_message : Postcard.RoundTrips Message := by
  intro message
  cases message with
  | reconciliationTerminatePayload isFinal => cases isFinal <;> rfl
  | _ =>
      simp only [Postcard.toIo, Postcard.fromBytes]
      rw [List.length_replicate, Encodable.encodek]

/-- Alfie sends the end of a payload, and Betty receives it. -/
def actions : List Action :=
  [.addGuarantees .alfie .reconciliation 100,
    .send .alfie (.reconciliationTerminatePayload true) 1, .network .alfie 6 (.readBytes 2),
    .network .alfie 6 (.readChunk 6), .network .alfie 6 (.write 3),
    .recv .betty (.logical .reconciliation) 4]

/-- The channels of both peers, when the stream of a channel has its id. -/
def channels : Channels StreamId StreamId where
  send := ⟨0, ⟨2, 6, 5, 3, 4, 7⟩⟩
  recv := ⟨0, ⟨2, 6, 5, 4, 3, 7⟩⟩

set_option maxRecDepth 4000 in
theorem receives_on_its_channel_one :
    ∃ s, run step (start (endpoints channels channels)) actions = some s ∧
      (s.received .betty (.logical .reconciliation)).map (MessageReceiver.convert .reconciliation) =
        [some (.ok (ReconciliationMessage.terminatePayload true))] ∧
      ∃ got rest ends, Delivers s .betty (.logical .reconciliation) got rest ends := by
  have hopened : Function.Injective fun ch : Channel => ch.id.val :=
    Fin.val_injective.comp Channel.id_injective
  obtain ⟨alfie, betty, halfie, hbetty, h⟩ := receives_on_its_channel roundTrips_message hopened
    Channel.all.reverse_perm
  obtain rfl : channels = alfie := Except.ok.inj ((by rfl : _ = _).trans halfie)
  obtain rfl : channels = betty := Except.ok.inj ((by rfl : _ = _).trans hbetty)
  obtain ⟨s, hs⟩ : ∃ s, run step (start (endpoints channels channels)) actions = some s :=
    ⟨_, rfl⟩
  refine ⟨s, hs, ?_, (h s (Reachable.of_run_all hs) .betty).1 _⟩
  obtain rfl := Option.some.inj hs
  rfl

end Sample

end Link

end IrohWillow
