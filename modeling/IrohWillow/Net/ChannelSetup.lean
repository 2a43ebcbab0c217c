import IrohWillow.Session.Channels

/-!
# The streams of the channels

`open_channel_streams` and `prepare_channels` of `net.rs`. Alfie opens a stream for
each channel and writes the id of the channel on it; Betty accepts as many streams
and reads an id on each. Both then look for the stream of each channel.

The streams are accepted in any order. They are numbered here; that `open_bi`,
`accept_bi` or the first byte fail is left out.
-/

namespace IrohWillow

/-- A bi-directional stream of a connection. -/
abbrev StreamId := Nat

/-- `ChannelStreams`. -/
abbrev ChannelStreams := List (Channel × StreamId)

/-- How the setup fails. -/
inductive SetupError where
  | invalidChannelId
  | missingChannel (channel : Channel)
  deriving DecidableEq, Repr

/-- `open_channel_streams` as Alfie; `opened` is the stream that was opened for each
channel. -/
def openChannelStreams (opened : Channel → StreamId) : ChannelStreams :=
  Channel.all.map fun ch => (ch, opened ch)

/-- What Betty does with an accepted stream and the byte that she has read on it. -/
def acceptStream (stream : StreamId) (id : Byte) : Except SetupError (Channel × StreamId) :=
  match Channel.fromId id with
  | .ok ch => .ok (ch, stream)
  | .error _ => .error .invalidChannelId

/-- `open_channel_streams` as Betty. -/
def acceptChannelStreams (accepted : List (StreamId × Byte)) : Except SetupError ChannelStreams :=
  accepted.mapM fun (stream, id) => acceptStream stream id

namespace PrepareChannels

/-- The streams that are not taken yet. -/
abbrev Streams := List (Channel × Option StreamId)

/-- `streams.take()` on the first entry of the channel. -/
def take (channel : Channel) : Streams → Streams
  | [] => []
  | (ch, streams) :: rest =>
      if ch = channel then (ch, none) :: rest else (ch, streams) :: take channel rest

/-- `find` in `prepare_channels`. -/
def find (channel : Channel) : StateT Streams (Except SetupError) StreamId := fun channels =>
  match channels.find? (·.1 = channel) with
  | some (_, some streams) => .ok (streams, take channel channels)
  | _ => .error (.missingChannel channel)

end PrepareChannels

open PrepareChannels in
/-- `prepare_channels`: a sender and a receiver for each channel. -/
def prepareChannels (channels : ChannelStreams) : Except SetupError (Channels StreamId StreamId) :=
  let prepare : StateT Streams (Except SetupError) (Channels StreamId StreamId) := do
    let ctrl ← find .control
    let pai ← find (.logical .intersection)
    let rec' ← find (.logical .reconciliation)
    let stt ← find (.logical .staticToken)
    let aoi ← find (.logical .areaOfInterest)
    let cap ← find (.logical .capability)
    let dat ← find (.logical .data)
    return {
      send := {
        controlSend := ctrl
        logicalSend := {
          intersectionSend := pai
          reconciliationSend := rec'
          staticTokensSend := stt
          aoiSend := aoi
          capabilitySend := cap
          dataSend := dat } }
      recv := {
        controlRecv := ctrl
        logicalRecv := {
          intersectionRecv := pai
          reconciliationRecv := rec'
          staticTokensRecv := stt
          aoiRecv := aoi
          capabilityRecv := cap
          dataRecv := dat } } }
  prepare.run' (channels.map fun (ch, stream) => (ch, some stream))

/-! ## What the setup finds -/

/-- The stream that is found for a channel. -/
def ChannelStreams.lookup (channels : ChannelStreams) (channel : Channel) : Option StreamId :=
  (channels.find? (·.1 = channel)).map (·.2)

namespace PrepareChannels

variable {channels : ChannelStreams} {st : Streams} {ch ch' : Channel}

theorem find?_take_of_ne (hne : ch ≠ ch') (st : Streams) :
    (take ch' st).find? (·.1 = ch) = st.find? (·.1 = ch) := by
  induction st with
  | nil => rfl
  | cons x rest ih =>
      obtain ⟨c, streams⟩ := x
      by_cases hc : c = ch'
      · subst hc
        simp [take, Ne.symm hne]
      · by_cases hc' : c = ch
        · subst hc'
          simp [take, hc]
        · simp [take, hc, hc', ih]

/-- The channels of `taken` were looked up; the other streams are still there. -/
def Holds (channels : ChannelStreams) (taken : List Channel) (st : Streams) : Prop :=
  ∀ ch, ch ∉ taken →
    st.find? (·.1 = ch) = (channels.lookup ch).map fun stream => (ch, some stream)

theorem holds_start (channels : ChannelStreams) :
    Holds channels [] (channels.map fun (ch, stream) => (ch, some stream)) := by
  intro ch _
  induction channels with
  | nil => rfl
  | cons x rest ih =>
      obtain ⟨c, stream⟩ := x
      by_cases hc : c = ch
      · simp [ChannelStreams.lookup, hc]
      · simpa [ChannelStreams.lookup, hc] using ih

/-- Looking for a channel that was not looked up before. -/
theorem find_eq {taken : List Channel} (h : Holds channels taken st) (hch : ch ∉ taken) :
    (∃ stream st', channels.lookup ch = some stream ∧ find ch st = .ok (stream, st') ∧
      Holds channels (ch :: taken) st') ∨
    (channels.lookup ch = none ∧ find ch st = .error (.missingChannel ch)) := by
  have hfind := h ch hch
  cases hlookup : channels.lookup ch with
  | none =>
      rw [hlookup] at hfind
      refine Or.inr ⟨rfl, ?_⟩
      simp [find, hfind]
  | some stream =>
      rw [hlookup] at hfind
      refine Or.inl ⟨stream, take ch st, rfl, ?_, ?_⟩
      · simp [find, hfind]
      · intro c hc
        rw [List.mem_cons, not_or] at hc
        rw [find?_take_of_ne hc.1]
        exact h c hc.2

/-- Every channel has its stream, or the error names a channel without one. -/
def Finds (channels : ChannelStreams) (res : Except SetupError (Channels StreamId StreamId)) :
    Prop :=
  (∃ c, res = .ok c ∧
    ∀ ch, channels.lookup ch = some (c.send.get ch) ∧ c.recv.get ch = c.send.get ch) ∨
  ∃ ch, channels.lookup ch = none ∧ res = .error (.missingChannel ch)

/-- Looking for one more channel, and going on with its stream. -/
theorem finds_bind {taken : List Channel} (h : Holds channels taken st) (hch : ch ∉ taken)
    {rest : StreamId → StateT Streams (Except SetupError) (Channels StreamId StreamId)}
    (hrest : ∀ stream st', channels.lookup ch = some stream → Holds channels (ch :: taken) st' →
      Finds channels ((rest stream).run' st')) :
    Finds channels ((find ch >>= rest).run' st) := by
  have hrun : (find ch >>= rest).run' st =
      (find ch st).bind fun x => (rest x.1).run' x.2 := by
    show Prod.fst <$> ((find ch st).bind fun x => rest x.1 x.2) = _
    cases find ch st <;> rfl
  rw [hrun]
  rcases find_eq h hch with ⟨stream, st', hlookup, heq, hst⟩ | ⟨hmissing, heq⟩
  · rw [heq]
    exact hrest stream st' hlookup hst
  · rw [heq]
    exact Or.inr ⟨ch, hmissing, rfl⟩

end PrepareChannels

open PrepareChannels in
/-- `prepare_channels` finds the stream of every channel, or names a channel without a
stream. -/
theorem finds_prepareChannels (channels : ChannelStreams) :
    Finds channels (prepareChannels channels) := by
  refine finds_bind (holds_start channels) (by simp) fun ctrl _ hctrl hst => ?_
  refine finds_bind hst (by simp) fun pai _ hpai hst => ?_
  refine finds_bind hst (by simp) fun rec' _ hrec hst => ?_
  refine finds_bind hst (by simp) fun stt _ hstt hst => ?_
  refine finds_bind hst (by simp) fun aoi _ haoi hst => ?_
  refine finds_bind hst (by simp) fun cap _ hcap hst => ?_
  refine finds_bind hst (by simp) fun dat _ hdat hst => ?_
  refine Or.inl ⟨_, rfl, ?_⟩
  intro ch
  cases ch with
  | control => exact ⟨hctrl, rfl⟩
  | logical ch =>
      cases ch with
      | intersection => exact ⟨hpai, rfl⟩
      | capability => exact ⟨hcap, rfl⟩
      | areaOfInterest => exact ⟨haoi, rfl⟩
      | staticToken => exact ⟨hstt, rfl⟩
      | reconciliation => exact ⟨hrec, rfl⟩
      | data => exact ⟨hdat, rfl⟩

/-! ## Both ends of the setup -/

/-- What Betty makes of the streams that she has accepted. -/
def acceptChannels (accepted : List (StreamId × Byte)) :
    Except SetupError (Channels StreamId StreamId) :=
  (acceptChannelStreams accepted).bind prepareChannels

/-- The byte is the id of no channel. -/
def Unknown (id : Byte) : Prop := ∀ ch : Channel, ch.id ≠ id

/-- Either every byte is the id of a channel, or the setup fails. -/
theorem acceptChannelStreams_cases (accepted : List (StreamId × Byte)) :
    (∃ channels, acceptChannelStreams accepted = .ok channels ∧
      accepted = channels.map fun x => (x.2, x.1.id)) ∨
    ((∃ x ∈ accepted, Unknown x.2) ∧
      acceptChannelStreams accepted = .error .invalidChannelId) := by
  induction accepted with
  | nil => exact Or.inl ⟨[], rfl, rfl⟩
  | cons x rest ih =>
      obtain ⟨stream, id⟩ := x
      have hcons : acceptChannelStreams ((stream, id) :: rest) =
          (acceptStream stream id).bind fun y =>
            (acceptChannelStreams rest).bind fun ys => .ok (y :: ys) := by
        simp only [acceptChannelStreams, List.mapM_cons]
        rfl
      cases hid : Channel.fromId id with
      | error e =>
          have herr : acceptStream stream id = .error .invalidChannelId := by
            rw [acceptStream, hid]
          refine Or.inr ⟨⟨_, List.mem_cons_self, ?_⟩, by rw [hcons, herr]; rfl⟩
          intro ch hch
          have hok := Channel.fromId_id ch
          rw [hch, hid] at hok
          cases hok
      | ok ch =>
          have hstream : acceptStream stream id = .ok (ch, stream) := by rw [acceptStream, hid]
          rcases ih with ⟨channels, hok, hrest⟩ | ⟨⟨y, hy, hunknown⟩, herr⟩
          · refine Or.inl ⟨(ch, stream) :: channels, by rw [hcons, hstream, hok]; rfl, ?_⟩
            rw [hrest, ← Channel.fromId_eq_ok hid]
            rfl
          · refine Or.inr ⟨⟨y, List.mem_cons_of_mem _ hy, hunknown⟩, ?_⟩
            rw [hcons, hstream, herr]
            rfl

theorem ChannelStreams.lookup_eq_none_iff (channels : ChannelStreams) (ch : Channel) :
    channels.lookup ch = none ↔ ch ∉ channels.map (·.1) := by
  rw [lookup, Option.map_eq_none_iff, List.find?_eq_none, List.mem_map]
  constructor
  · rintro h ⟨x, hx, hch⟩
    exact h x hx (by simpa using hch)
  · intro h x hx hch
    exact h ⟨x, hx, by simpa using hch⟩

theorem ChannelStreams.mem_of_lookup {channels : ChannelStreams} {ch : Channel}
    {stream : StreamId} (h : channels.lookup ch = some stream) : (ch, stream) ∈ channels := by
  obtain ⟨⟨c, s⟩, hfind, rfl⟩ := Option.map_eq_some_iff.mp h
  have hc : c = ch := by simpa using List.find?_some hfind
  rw [← hc]
  exact List.mem_of_find?_eq_some hfind

/-- Seven channels with all ids are a permutation of all channels. -/
theorem perm_all_iff {l : List Channel} (hlen : l.length = Channel.all.length) :
    l.Perm Channel.all ↔ ∀ ch, ch ∈ l := by
  constructor
  · intro h ch
    exact h.mem_iff.mpr ch.mem_all
  · intro h
    refine (List.Subperm.perm_of_length_le ?_ hlen.le).symm
    exact List.subperm_of_subset Channel.nodup_all fun ch _ => h ch

/-- What Betty's setup does with the bytes on seven streams. -/
theorem acceptChannels_cases {accepted : List (StreamId × Byte)}
    (hlen : accepted.length = Channel.all.length) :
    (∃ c, acceptChannels accepted = .ok c ∧
      (accepted.map (·.2)).Perm (Channel.all.map Channel.id) ∧
      ∀ ch, (c.send.get ch, ch.id) ∈ accepted ∧ c.recv.get ch = c.send.get ch) ∨
    (acceptChannels accepted = .error .invalidChannelId ∧ ∃ x ∈ accepted, Unknown x.2) ∨
    ∃ ch, acceptChannels accepted = .error (.missingChannel ch) ∧
      ch.id ∉ accepted.map (·.2) ∧ ¬ ∃ x ∈ accepted, Unknown x.2 := by
  rcases acceptChannelStreams_cases accepted with ⟨channels, hok, hids⟩ | ⟨hunknown, herr⟩
  case inr => exact Or.inr (Or.inl ⟨by rw [acceptChannels, herr]; rfl, hunknown⟩)
  have hrun : acceptChannels accepted = prepareChannels channels := by
    rw [acceptChannels, hok]
    rfl
  have hbytes : accepted.map (·.2) = (channels.map (·.1)).map Channel.id := by
    rw [hids, List.map_map, List.map_map]
    rfl
  rw [hrun, hbytes]
  rcases finds_prepareChannels channels with ⟨c, hc, hget⟩ | ⟨ch, hmissing, hfail⟩
  · refine Or.inl ⟨c, hc, List.Perm.map _ ((perm_all_iff ?_).mpr fun ch => ?_), fun ch => ?_⟩
    · rw [← hlen, hids, List.length_map, List.length_map]
    · exact List.mem_map_of_mem (ChannelStreams.mem_of_lookup (hget ch).1)
    · refine ⟨?_, (hget ch).2⟩
      rw [hids]
      exact List.mem_map.mpr ⟨_, ChannelStreams.mem_of_lookup (hget ch).1, rfl⟩
  · refine Or.inr (Or.inr ⟨ch, hfail, ?_, ?_⟩)
    · rw [List.mem_map_of_injective Channel.id_injective]
      exact (ChannelStreams.lookup_eq_none_iff channels ch).mp hmissing
    · rintro ⟨x, hx, hunknown⟩
      rw [hids] at hx
      obtain ⟨y, -, rfl⟩ := List.mem_map.mp hx
      exact hunknown y.1 rfl

/-- When all ids have come, none is missing and none is unknown. -/
theorem acceptChannels_of_perm {accepted : List (StreamId × Byte)}
    (hperm : (accepted.map (·.2)).Perm (Channel.all.map Channel.id)) :
    ∃ c, acceptChannels accepted = .ok c ∧
      ∀ ch, (c.send.get ch, ch.id) ∈ accepted ∧ c.recv.get ch = c.send.get ch := by
  have hlen : accepted.length = Channel.all.length := by
    have h := hperm.length_eq
    rwa [List.length_map, List.length_map] at h
  rcases acceptChannels_cases hlen with ⟨c, hc, -, hget⟩ | ⟨-, x, hx, hunknown⟩ | ⟨ch, -, hnot, -⟩
  · exact ⟨c, hc, hget⟩
  · obtain ⟨ch, -, hch⟩ :=
      List.mem_map.mp (hperm.mem_iff.mp (List.mem_map_of_mem (f := (·.2)) hx))
    exact absurd hch (hunknown ch)
  · exact absurd (hperm.mem_iff.mpr (List.mem_map_of_mem (Channel.mem_all ch))) hnot

/-- **The setup against any peer.** Betty's setup succeeds exactly when the bytes on the
seven streams are the ids of the channels in some order; each channel then has the stream
with its id. It fails with an invalid id exactly when one of the bytes is the id of no
channel, and otherwise with a channel whose id did not come. -/
theorem acceptChannels_iff {accepted : List (StreamId × Byte)}
    (hlen : accepted.length = Channel.all.length) :
    ((∃ c, acceptChannels accepted = .ok c) ↔
      (accepted.map (·.2)).Perm (Channel.all.map Channel.id)) ∧
    (∀ c, acceptChannels accepted = .ok c → ∀ ch,
      (c.send.get ch, ch.id) ∈ accepted ∧ c.recv.get ch = c.send.get ch) ∧
    (acceptChannels accepted = .error .invalidChannelId ↔ ∃ x ∈ accepted, Unknown x.2) ∧
    ∀ ch, acceptChannels accepted = .error (.missingChannel ch) → ch.id ∉ accepted.map (·.2) := by
  refine ⟨⟨?_, fun hperm => ?_⟩, ?_, ?_, ?_⟩
  · rintro ⟨c, hc⟩
    rcases acceptChannels_cases hlen with ⟨-, -, hperm, -⟩ | ⟨h, -⟩ | ⟨ch, h, -⟩
    · exact hperm
    · exact nomatch hc.symm.trans h
    · exact nomatch hc.symm.trans h
  · obtain ⟨c, hc, -⟩ := acceptChannels_of_perm hperm
    exact ⟨c, hc⟩
  · intro c hc
    rcases acceptChannels_cases hlen with ⟨c', h, -, hget⟩ | ⟨h, -⟩ | ⟨ch, h, -⟩
    · obtain rfl := Except.ok.inj (hc.symm.trans h)
      exact hget
    · exact nomatch hc.symm.trans h
    · exact nomatch hc.symm.trans h
  · rcases acceptChannels_cases hlen with ⟨c, h, hperm, -⟩ | ⟨h, hunknown⟩ | ⟨ch, h, -, hknown⟩
    · rw [h]
      refine ⟨(nomatch ·), ?_⟩
      rintro ⟨x, hx, hunknown⟩
      obtain ⟨ch, -, hch⟩ :=
        List.mem_map.mp (hperm.mem_iff.mp (List.mem_map_of_mem (f := (·.2)) hx))
      exact absurd hch (hunknown ch)
    · exact ⟨fun _ => hunknown, fun _ => h⟩
    · rw [h]
      exact ⟨(nomatch ·), fun hunknown => absurd hunknown hknown⟩
  · intro ch herr
    rcases acceptChannels_cases hlen with ⟨c, h, -⟩ | ⟨h, -⟩ | ⟨ch', h, hnot, -⟩
    · exact nomatch herr.symm.trans h
    · exact nomatch herr.symm.trans h
    · obtain rfl := SetupError.missingChannel.inj (Except.error.inj (herr.symm.trans h))
      exact hnot

/-- The byte 3 comes twice and the byte 4 does not come. -/
theorem acceptChannels_iff_twice :
    acceptChannels [(0, 0), (1, 2), (2, 3), (3, 3), (4, 5), (5, 6), (6, 7)] =
        .error (.missingChannel (.logical .capability)) ∧
      (4 : Byte) ∉ ([(0, 0), (1, 2), (2, 3), (3, 3), (4, 5), (5, 6), (6, 7)] :
        List (StreamId × Byte)).map (·.2) := by
  have hrun : acceptChannels [(0, 0), (1, 2), (2, 3), (3, 3), (4, 5), (5, 6), (6, 7)] =
      .error (.missingChannel (.logical .capability)) := by rfl
  exact ⟨hrun, (acceptChannels_iff (by rfl)).2.2.2 _ hrun⟩

end IrohWillow
