import IrohWillow.Session.AoiExchange
import IrohWillow.Session.Intents
import IrohWillow.Store.CapsStores

/-!
# Areas of interest and capabilities

`Auth::resolve_interests` pairs the areas of interest of a client with read
capabilities, the `IntersectionFinder` sends them under the handle of the
capability, and the peer aborts the session when one is not included in the
granted area. A `Widest` selector always asks for the granted area itself; the
areas of an `Exact` selector are paired with whatever capability its
`CapSelector` selects.
-/

namespace IrohWillow

namespace Intents

/-! ## Resolving interests -/

/-- The authorisation is paired with the area of interest. -/
def InterestMap.Has (map : InterestMap) (auth : ReadAuthorisation) (x : AreaOfInterest) : Prop :=
  ∃ aois, (auth, aois) ∈ map ∧ x ∈ aois

theorem InterestMap.has_add {map : InterestMap} {auth a : ReadAuthorisation}
    {aois : List AreaOfInterest} {x : AreaOfInterest} :
    (map.add auth aois).Has a x ↔ map.Has a x ∨ a = auth ∧ x ∈ aois := by
  induction map with
  | nil => simp [add, Has]
  | cons e map ih =>
      obtain ⟨auth', aois'⟩ := e
      have hcons : ∀ (b : List AreaOfInterest) (m : InterestMap),
          Has ((auth', b) :: m) a x ↔ a = auth' ∧ x ∈ b ∨ m.Has a x := by
        intro b m
        simp only [Has, List.mem_cons, Prod.mk.injEq]
        constructor
        · rintro ⟨c, ⟨ha, rfl⟩ | hmem, hx⟩
          · exact Or.inl ⟨ha, hx⟩
          · exact Or.inr ⟨c, hmem, hx⟩
        · rintro (⟨ha, hx⟩ | ⟨c, hmem, hx⟩)
          · exact ⟨b, Or.inl ⟨ha, rfl⟩, hx⟩
          · exact ⟨c, Or.inr hmem, hx⟩
      by_cases heq : auth' = auth
      · subst heq
        rw [add, if_pos rfl, hcons, hcons, List.mem_union_iff]
        tauto
      · rw [add, if_neg heq, hcons, hcons, ih]
        tauto

/-- The areas that a selector asks for, when its capability is `auth`. -/
def AreaOfInterestSelector.areas (auth : ReadAuthorisation) :
    AreaOfInterestSelector → List AreaOfInterest
  | .widest => [Auth.widest auth]
  | .exact aois => aois

namespace Auth

variable {a : Auth} {auth : ReadAuthorisation} {x : AreaOfInterest}

theorem has_resolveSelected {l : List (CapSelector × AreaOfInterestSelector)}
    {out map : InterestMap} (h : a.resolveSelected l out = some map) :
    map.Has auth x ↔ out.Has auth x ∨
      ∃ s selector, (s, selector) ∈ l ∧ a.getReadCap s = some (some auth) ∧
        x ∈ selector.areas auth := by
  induction l generalizing out with
  | nil =>
      obtain rfl := Option.some.inj h
      simp
  | cons e l ih =>
      obtain ⟨s, selector⟩ := e
      have hcons : (∃ s' selector', (s', selector') ∈ (s, selector) :: l ∧
          a.getReadCap s' = some (some auth) ∧ x ∈ selector'.areas auth) ↔
          (a.getReadCap s = some (some auth) ∧ x ∈ selector.areas auth) ∨
          ∃ s' selector', (s', selector') ∈ l ∧ a.getReadCap s' = some (some auth) ∧
            x ∈ selector'.areas auth := by
        simp only [List.mem_cons, Prod.mk.injEq]
        constructor
        · rintro ⟨s', selector', ⟨rfl, rfl⟩ | hmem, hrest⟩
          · exact Or.inl hrest
          · exact Or.inr ⟨s', selector', hmem, hrest⟩
        · rintro (hrest | ⟨s', selector', hmem, hrest⟩)
          · exact ⟨s, selector, Or.inl ⟨rfl, rfl⟩, hrest⟩
          · exact ⟨s', selector', Or.inr hmem, hrest⟩
      rw [hcons]
      unfold resolveSelected at h
      cases hcap : a.getReadCap s with
      | none =>
          rw [hcap] at h
          cases h
      | some found =>
          cases found with
          | none =>
              rw [hcap] at h
              rw [ih h]
              simp
          | some cap =>
              rw [hcap] at h
              -- both kinds of selector add under the selected capability
              have hadd : a.resolveSelected l (out.add cap (selector.areas cap)) = some map := by
                cases selector <;> exact h
              rw [ih hadd, InterestMap.has_add]
              simp only [Option.some.injEq]
              constructor
              · rintro ((hout | ⟨rfl, hx⟩) | hrest)
                · exact Or.inl hout
                · exact Or.inr (Or.inl ⟨rfl, hx⟩)
                · exact Or.inr (Or.inr hrest)
              · rintro (hout | ⟨rfl, hx⟩ | hrest)
                · exact Or.inl (Or.inl hout)
                · exact Or.inl (Or.inr ⟨rfl, hx⟩)
                · exact Or.inr hrest

theorem has_foldl_widest {auths : List ReadAuthorisation} {out : InterestMap} :
    (auths.foldl (fun out auth => out.add auth [widest auth]) out).Has auth x ↔
      out.Has auth x ∨ auth ∈ auths ∧ x = widest auth := by
  induction auths generalizing out with
  | nil => simp
  | cons b auths ih =>
      rw [List.foldl_cons, ih, InterestMap.has_add, List.mem_singleton, List.mem_cons]
      constructor
      · rintro ((hout | ⟨rfl, hx⟩) | ⟨hmem, hx⟩)
        · exact Or.inl hout
        · exact Or.inr ⟨Or.inl rfl, hx⟩
        · exact Or.inr ⟨Or.inr hmem, hx⟩
      · rintro (hout | ⟨rfl | hmem, hx⟩)
        · exact Or.inl (Or.inl hout)
        · exact Or.inl (Or.inr ⟨rfl, hx⟩)
        · exact Or.inr ⟨hmem, hx⟩

end Auth

/-- Every area of interest is included in the granted area of its authorisation. -/
def InterestMap.Within (map : InterestMap) : Prop :=
  ∀ auth x, map.Has auth x → auth.readCap.grantedArea.IncludesArea x.area

/-- The areas of every `Exact` selector are included in the granted area of the
capability that is found for it. -/
def SelectsWithin (a : Auth) : Interests → Prop
  | .all => True
  | .select interests => ∀ s aois, (s, .exact aois) ∈ interests →
      ∀ auth, a.getReadCap s = some (some auth) →
        ∀ x ∈ aois, auth.readCap.grantedArea.IncludesArea x.area

theorem within_iff {a : Auth} {interests : Interests} {map : InterestMap}
    (h : a.resolveInterests interests = some map) : map.Within ↔ SelectsWithin a interests := by
  cases interests with
  | all =>
      obtain ⟨auths, -, rfl⟩ := Option.map_eq_some_iff.mp h
      refine iff_of_true ?_ trivial
      intro auth x hx
      rcases Auth.has_foldl_widest.mp hx with hnil | ⟨-, rfl⟩
      · simp [InterestMap.Has] at hnil
      · exact Area.IncludesArea.refl _
  | select interests =>
      have hhas := fun auth x => @Auth.has_resolveSelected a auth x _ _ _ h
      constructor
      · intro hwithin s aois hmem auth hcap x hx
        exact hwithin auth x ((hhas auth x).mpr (Or.inr ⟨s, _, hmem, hcap, hx⟩))
      · intro hselects auth x hx
        rcases (hhas auth x).mp hx with hnil | ⟨s, selector, hmem, hcap, hx⟩
        · simp [InterestMap.Has] at hnil
        · cases selector with
          | widest =>
              rw [List.mem_singleton.mp hx]
              exact Area.IncludesArea.refl _
          | exact aois => exact hselects s aois hmem auth hcap x hx

end Intents

/-! ## What the finder sends -/

namespace IntersectionFinder

open Intents Relation

/-- The finder knows only areas of interest that their capability grants, and has sent
only such areas, each with the number that its capability has among the capabilities
whose signing was requested. -/
structure SendsWithin (f : IntersectionFinder) : Prop where
  bound : f.caps.ours.Mirrors (requested f.outputs)
  interests : ∀ a aois, f.interests a = some aois →
    ∀ x ∈ aois, a.readCap.grantedArea.IncludesArea x.area
  messages : ∀ m ∈ messages f.outputs, ∃ cap, (requested f.outputs)[m.2]? = some cap ∧
    cap.grantedArea.IncludesArea m.1.area

/-- The interests of an input are within what their capabilities grant. -/
def InputWithin (input : Input) : Prop :=
  ∀ interests : InterestMap, input = .addInterests interests → interests.Within

variable {f f' : IntersectionFinder} {input : Input}

/-- More outputs, none of which requests a signature or is a message. -/
theorem SendsWithin.yield (h : f.SendsWithin) {outputs : List Output}
    (hrequested : requested outputs = []) (hmessages : IntersectionFinder.messages outputs = []) :
    (f.yield outputs).SendsWithin := by
  have hrequests : requested (f.outputs ++ outputs) = requested f.outputs := by
    unfold requested at hrequested ⊢
    rw [List.filterMap_append, hrequested, List.append_nil]
  have hsame : IntersectionFinder.messages (f.outputs ++ outputs) =
      IntersectionFinder.messages f.outputs := by
    unfold IntersectionFinder.messages at hmessages ⊢
    rw [List.filterMap_append, hmessages, List.append_nil]
  refine ⟨?_, h.interests, ?_⟩
  · show f.caps.ours.Mirrors (requested (f.outputs ++ outputs))
    rw [hrequests]
    exact h.bound
  · show ∀ m ∈ IntersectionFinder.messages (f.outputs ++ outputs),
      ∃ cap, (requested (f.outputs ++ outputs))[m.2]? = some cap ∧ _
    rw [hrequests, hsame]
    exact h.messages

theorem SendsWithin.setInterests (h : f.SendsWithin) {a : ReadAuthorisation}
    {aois : List AreaOfInterest} (haois : ∀ x ∈ aois, a.readCap.grantedArea.IncludesArea x.area) :
    SendsWithin { f with interests := Function.update f.interests a (some aois) } := by
  refine ⟨h.bound, fun b bois hb => ?_, h.messages⟩
  rcases update_eq_some.mp hb with ⟨rfl, rfl⟩ | ⟨-, hb⟩
  · exact haois
  · exact h.interests b bois hb

variable [WillowDataModel]

theorem SendsWithin.bindValidated (h : f.SendsWithin) (scope : Scope) (ns : NamespaceId)
    (aoi : AreaOfInterest) : (f.bindValidated scope ns aoi).SendsWithin := by
  have hhandles : SendsWithin { f with handles := (f.handles.bindValidated scope ns aoi).2 } :=
    ⟨h.bound, h.interests, h.messages⟩
  exact hhandles.yield (by simp [requested]) (by simp [IntersectionFinder.messages])

/-- **One move**: what is sent is granted by the capability that is sent with it. -/
theorem SendsWithin.moves (h : f.SendsWithin) (hinput : InputWithin input)
    (hmove : Moves input f f') : f'.SendsWithin := by
  cases hmove with
  | @submit a aois hunknown hmem =>
      obtain ⟨interests, heq, hmem⟩ := hmem
      refine (h.setInterests fun x hx => ?_).yield rfl rfl
      exact hinput interests heq a x ⟨aois, hmem, hx⟩
  | @insert a existing aoi hknown hmem =>
      obtain ⟨interests, aois, heq, hmem, haoi⟩ := hmem
      refine h.setInterests fun x hx => ?_
      rcases List.mem_append.mp hx with hx | hx
      · exact h.interests a existing hknown x hx
      · rw [List.mem_singleton.mp hx]
        exact hinput interests heq a aoi ⟨aois, hmem, haoi⟩
  | @send a aois aoi k hknown hmem hbound =>
      obtain ⟨hours, hinterests, hmessages⟩ := h.bindValidated .ours a.namespaceId aoi
      have hrequests : requested (f.bindAndSendOurs a.namespaceId k aoi).outputs =
          requested (f.bindValidated .ours a.namespaceId aoi).outputs := by
        show requested (_ ++ [Output.sendMessage aoi k]) = _
        simp [requested]
      have hsent : IntersectionFinder.messages (f.bindAndSendOurs a.namespaceId k aoi).outputs =
          IntersectionFinder.messages (f.bindValidated .ours a.namespaceId aoi).outputs ++
            [(aoi, k)] := by
        show IntersectionFinder.messages (_ ++ [Output.sendMessage aoi k]) = _
        simp [IntersectionFinder.messages]
      refine ⟨?_, hinterests, ?_⟩
      · rw [hrequests]
        exact hours
      · rw [hrequests, hsent]
        intro m hm
        rcases List.mem_append.mp hm with hm | hm
        · exact hmessages m hm
        · rw [List.mem_singleton.mp hm]
          -- the handle that is sent is that of this capability
          have hk : f.caps.ours.tryGet k =
              (requested (f.bindValidated .ours a.namespaceId aoi).outputs)[k]? := hours.tryGet k
          exact ⟨a.readCap, hk.symm.trans hbound, h.interests a aois hknown aoi hmem⟩
  | @bindCapability a handle hknown hnew =>
      have hrequests : requested (f.outputs ++ [.signAndSendCapability handle a.readCap]) =
          requested f.outputs ++ [a.readCap] := by
        simp [requested]
      have hsent : IntersectionFinder.messages
          (f.outputs ++ [.signAndSendCapability handle a.readCap]) =
          IntersectionFinder.messages f.outputs := by
        simp [IntersectionFinder.messages]
      refine ⟨?_, h.interests, ?_⟩
      · show (f.caps.ours.bind a.readCap).2.Mirrors (requested (f.outputs ++ _))
        rw [hrequests]
        exact h.bound.bind
      · show ∀ m ∈ IntersectionFinder.messages (f.outputs ++ _),
          ∃ cap, (requested (f.outputs ++ _))[m.2]? = some cap ∧ _
        rw [hrequests, hsent]
        intro m hm
        obtain ⟨cap, hcap, harea⟩ := h.messages m hm
        -- a new request does not change what stands under earlier handles
        have hlt := (List.getElem?_eq_some_iff.mp hcap).1
        exact ⟨cap, (List.getElem?_append_left hlt).trans hcap, harea⟩

/-- An input makes moves, or binds an area of interest of the peer. -/
theorem moves_onInput (hok : f.onInput input = .ok f') :
    ReflTransGen (Moves input) f f' ∨ ∃ ns aoi, f' = f.bindValidated .theirs ns aoi := by
  cases input with
  | addInterests interests =>
      obtain rfl := Except.ok.inj hok
      exact Or.inl (moves_addInterests (List.Subset.refl _))
  | paiIntersection a handle => exact Or.inl (moves_onPaiIntersection hok)
  | receivedValidatedAoi ns aoi => exact Or.inr ⟨ns, aoi, (Except.ok.inj hok).symm⟩

/-- **One input.** -/
theorem SendsWithin.onInput (h : f.SendsWithin) (hinput : InputWithin input)
    (hok : f.onInput input = .ok f') : f'.SendsWithin := by
  rcases moves_onInput hok with hmoves | ⟨ns, aoi, rfl⟩
  · clear hok
    induction hmoves with
    | refl => exact h
    | tail _ hmove ih => exact ih.moves hinput hmove
  · exact h.bindValidated .theirs ns aoi

/-- Outputs are only added, and the capabilities of the peer stay. -/
theorem Moves.keeps (hmove : Moves input f f') :
    f.outputs <+: f'.outputs ∧ f'.caps.theirs = f.caps.theirs := by
  cases hmove with
  | submit hunknown hmem => exact ⟨List.prefix_append _ _, rfl⟩
  | insert hknown hmem => exact ⟨List.prefix_refl _, rfl⟩
  | send hknown hmem hbound => exact ⟨⟨_, (List.append_assoc _ _ _).symm⟩, rfl⟩
  | bindCapability hknown hnew => exact ⟨List.prefix_append _ _, rfl⟩

theorem onInput_keeps (hok : f.onInput input = .ok f') :
    f.outputs <+: f'.outputs ∧ f'.caps.theirs = f.caps.theirs := by
  rcases moves_onInput hok with hmoves | ⟨ns, aoi, rfl⟩
  · clear hok
    induction hmoves with
    | refl => exact ⟨List.prefix_refl _, rfl⟩
    | tail _ hmove ih =>
        obtain ⟨houtputs, htheirs⟩ := hmove.keeps
        exact ⟨ih.1.trans houtputs, htheirs.trans ih.2⟩
  · exact ⟨List.prefix_append _ _, rfl⟩

theorem onInput_error {e : Error} (h : f.onInput input = .error e) :
    e = .noKnownInterestsForCapability := by
  cases input with
  | addInterests interests => cases h
  | receivedValidatedAoi ns aoi => cases h
  | paiIntersection a handle =>
      have h' : f.onPaiIntersection a handle = .error e := h
      unfold onPaiIntersection at h'
      split at h'
      · exact (Except.error.inj h').symm
      · cases h'

end IntersectionFinder

/-! ## What a session sends, and what the other one accepts -/

namespace Capabilities

variable {c : Capabilities} {e : Error}

theorem signCapability_ne {secrets : SecretStorage} {handle : Nat} {capability : ReadCapability}
    (h : c.signCapability secrets handle capability = .error e) : e ≠ .unauthorisedArea := by
  unfold signCapability at h
  cases hc : c.challenge with
  | committed n commitment =>
      simp only [hc, ChallengeState.signable] at h
      rw [← Except.error.inj h]
      decide
  | revealed ours theirs =>
      have hrevealed : c.challenge.isRevealed = true := by
        rw [hc]
        rfl
      rw [signCapability_error hrevealed h]
      decide

theorem validateAndBindTheirs_ne [Meadowcap] {capability : ReadCapability}
    {signature : UserSignature} (h : c.validateAndBindTheirs capability signature = .error e) :
    e ≠ .unauthorisedArea := by
  cases hc : c.challenge with
  | committed n commitment =>
      unfold validateAndBindTheirs at h
      split at h
      · simp only [hc, ChallengeState.verify] at h
        rw [← Except.error.inj h]
        decide
      · rw [← Except.error.inj h]
        decide
  | revealed ours theirs =>
      have hrevealed : c.challenge.isRevealed = true := by
        rw [hc]
        rfl
      rw [validateAndBindTheirs_error hrevealed h]
      decide

end Capabilities

namespace AoiExchange

open IntersectionFinder
open Intents (InterestMap)

/-- The session has sent what was put out: the capabilities in their order, all of
them unless it has failed, and no area of interest but these. -/
structure Emitted (outputs : List Output) (s : AoiPeer) : Prop where
  capability : s.capability.map (·.capability) <+: requested outputs
  complete : s.failed = none → s.capability.map (·.capability) = requested outputs
  areaOfInterest : s.areaOfInterest ⊆ messages outputs

variable {outputs : List Output} {peer sender receiver : AoiPeer}

/-- **One output.** -/
theorem Emitted.onOutput (h : Emitted outputs peer) (output : Output) :
    Emitted (outputs ++ [output]) (peer.onOutput output) := by
  have hmore : requested outputs <+: requested (outputs ++ [output]) := by
    unfold requested
    rw [List.filterMap_append]
    exact List.prefix_append _ _
  have hsent : messages outputs ⊆ messages (outputs ++ [output]) := by
    unfold messages
    rw [List.filterMap_append]
    exact List.subset_append_left _ _
  unfold AoiPeer.onOutput
  by_cases hfailed : peer.failed.isSome
  · -- a session that has failed sends nothing more
    rw [if_pos hfailed]
    refine ⟨h.capability.trans hmore, fun hnone => ?_, List.Subset.trans h.areaOfInterest hsent⟩
    rw [hnone] at hfailed
    cases hfailed
  · rw [if_neg hfailed]
    have halive : peer.failed = none := Option.not_isSome_iff_eq_none.mp hfailed
    have hall := h.complete halive
    cases output with
    | sendMessage aoi k =>
        have hsame : requested (outputs ++ [.sendMessage aoi k]) = requested outputs := by
          simp [requested]
        refine ⟨h.capability.trans hmore, fun _ => hall.trans hsame.symm, ?_⟩
        refine List.append_subset.mpr ⟨List.Subset.trans h.areaOfInterest hsent, ?_⟩
        simp [messages]
    | submitAuthorisation a =>
        have hsame : requested (outputs ++ [.submitAuthorisation a]) = requested outputs := by
          simp [requested]
        exact ⟨h.capability.trans hmore, fun _ => hall.trans hsame.symm,
          List.Subset.trans h.areaOfInterest hsent⟩
    | aoiIntersection i =>
        have hsame : requested (outputs ++ [.aoiIntersection i]) = requested outputs := by
          simp [requested]
        exact ⟨h.capability.trans hmore, fun _ => hall.trans hsame.symm,
          List.Subset.trans h.areaOfInterest hsent⟩
    | signAndSendCapability k cap =>
        have hnew : requested (outputs ++ [.signAndSendCapability k cap]) =
            requested outputs ++ [cap] := by
          simp [requested]
        dsimp only
        cases hsign : peer.finder.caps.signCapability peer.secrets k cap with
        | error e =>
            -- the session fails here, so nothing is claimed about what is missing
            refine ⟨h.capability.trans hmore, fun hnone => ?_, List.Subset.trans h.areaOfInterest hsent⟩
            cases hnone
        | ok message =>
            obtain ⟨-, -, -, hcap, -⟩ := Capabilities.signCapability_ok hsign
            have heq : (peer.capability ++ [message]).map (·.capability) =
                requested (outputs ++ [.signAndSendCapability k cap]) := by
              rw [hnew, List.map_append, hall, List.map_singleton, hcap]
            exact ⟨heq ▸ List.prefix_refl _, fun _ => heq, List.Subset.trans h.areaOfInterest hsent⟩

theorem Emitted.foldl (h : Emitted outputs peer) (more : List Output) :
    Emitted (outputs ++ more) (more.foldl AoiPeer.onOutput peer) := by
  induction more generalizing outputs peer with
  | nil =>
      rw [List.append_nil]
      exact h
  | cons output more ih =>
      rw [List.append_cons]
      exact ih (h.onOutput output)

/-- What processing an output leaves as it is. -/
structure SameInside (s s' : AoiPeer) : Prop where
  finder : s'.finder = s.finder
  inbox : s'.inbox = s.inbox
  capability : s.capability <+: s'.capability
  accepted : s.failed ≠ some .unauthorisedArea → s'.failed ≠ some .unauthorisedArea

theorem sameInside_onOutput (s : AoiPeer) (output : Output) :
    SameInside s (s.onOutput output) := by
  have hself : SameInside s s := ⟨rfl, rfl, List.prefix_refl _, fun h => h⟩
  unfold AoiPeer.onOutput
  by_cases hfailed : s.failed.isSome
  · rw [if_pos hfailed]
    exact hself
  · rw [if_neg hfailed]
    cases output with
    | sendMessage aoi k => exact ⟨rfl, rfl, List.prefix_refl _, fun h => h⟩
    | submitAuthorisation a => exact hself
    | aoiIntersection i => exact hself
    | signAndSendCapability k cap =>
        dsimp only
        cases hsign : s.finder.caps.signCapability s.secrets k cap with
        | ok message => exact ⟨rfl, rfl, List.prefix_append _ _, fun h => h⟩
        | error e =>
            refine ⟨rfl, rfl, List.prefix_refl _, fun _ heq => ?_⟩
            exact Capabilities.signCapability_ne hsign (Option.some.inj heq)

theorem sameInside_foldl (outputs : List Output) (s : AoiPeer) :
    SameInside s (outputs.foldl AoiPeer.onOutput s) := by
  induction outputs generalizing s with
  | nil => exact ⟨rfl, rfl, List.prefix_refl _, fun h => h⟩
  | cons output outputs ih =>
      have hone := sameInside_onOutput s output
      have hrest := ih (s.onOutput output)
      exact ⟨hrest.finder.trans hone.finder, hrest.inbox.trans hone.inbox,
        hone.capability.trans hrest.capability, fun h => hrest.accepted (hone.accepted h)⟩

/-- The sender has only interests within its capabilities, and has sent what its finder
put out. -/
structure Sends (sender : AoiPeer) : Prop where
  finder : sender.finder.SendsWithin
  inbox : ∀ input ∈ sender.inbox, InputWithin input
  emitted : Emitted sender.finder.outputs sender

/-- The receiver has the capabilities of the sender in their order, and has accepted
every area of interest. -/
structure Accepts (sender receiver : AoiPeer) (caps : Nat) : Prop where
  caps_le : caps ≤ sender.capability.length
  theirs : receiver.failed = none →
    receiver.finder.caps.theirs.Mirrors ((sender.capability.take caps).map (·.capability))
  accepted : receiver.failed ≠ some .unauthorisedArea

/-- **The invariant** of a session whose interests are within its capabilities. -/
def WithinInv (p : Role) (s : AoiExchange) : Prop :=
  Sends (s.peer p) ∧ Accepts (s.peer p) (s.peer p.other) (s.receivedCapability p.other)

theorem withinInv_start (nonce : Role → AccessChallenge) (secrets : Role → SecretStorage)
    (p : Role) : WithinInv p (start nonce secrets) := by
  refine ⟨⟨⟨ResourceMap.mirrors_empty, ?_, ?_⟩, ?_, ⟨List.prefix_refl _, fun _ => rfl, ?_⟩⟩,
    ⟨le_refl _, fun _ => ResourceMap.mirrors_empty, ?_⟩⟩
  · intro a aois h
    cases h
  · intro m hm
    cases hm
  · intro input hinput
    cases hinput
  · exact List.nil_subset _
  · intro h
    cases h

variable {s s' : AoiExchange} {p : Role}

/-- The sender has gone on. -/
theorem WithinInv.of_sender (h : WithinInv p s) (hpeer : s'.peer = Function.update s.peer p peer)
    (hcaps : s'.receivedCapability p.other = s.receivedCapability p.other) (hsends : Sends peer)
    (hsent : (s.peer p).capability <+: peer.capability) : WithinInv p s' := by
  have hself : s'.peer p = peer := by rw [hpeer, Function.update_self]
  have hother : s'.peer p.other = s.peer p.other := by
    rw [hpeer, Function.update_of_ne p.other_ne]
  obtain ⟨-, haccepts⟩ := h
  unfold WithinInv
  rw [hself, hother, hcaps]
  refine ⟨hsends, haccepts.caps_le.trans hsent.length_le, fun halive => ?_, haccepts.accepted⟩
  obtain ⟨more, hmore⟩ := hsent
  rw [← hmore, List.take_append_of_le_length haccepts.caps_le]
  exact haccepts.theirs halive

/-- The receiver has gone on. -/
theorem WithinInv.of_receiver (h : WithinInv p s)
    (hpeer : s'.peer = Function.update s.peer p.other peer)
    (haccepts : Accepts (s.peer p) peer (s'.receivedCapability p.other)) : WithinInv p s' := by
  have hself : s'.peer p = s.peer p := by
    rw [hpeer, Function.update_of_ne p.other_ne.symm]
  have hother : s'.peer p.other = peer := by rw [hpeer, Function.update_self]
  unfold WithinInv
  rw [hself, hother]
  exact ⟨h.1, haccepts⟩

/-- More input for the sender. -/
theorem Sends.push (h : Sends sender) {input : Input} (hinput : InputWithin input) :
    Sends (sender.push input) := by
  refine ⟨h.finder, fun input' hmem => ?_, ⟨h.emitted.capability, h.emitted.complete,
    h.emitted.areaOfInterest⟩⟩
  rcases List.mem_append.mp hmem with hmem | hmem
  · exact h.inbox input' hmem
  · rw [List.mem_singleton.mp hmem]
    exact hinput

theorem inputWithin_of_ne {input : Input}
    (hne : ∀ interests, input ≠ .addInterests interests) : InputWithin input :=
  fun interests heq => absurd heq (hne interests)

variable [WillowDataModel]

/-- What a session does with an input. -/
theorem takeInput_cases (h : sender.takeInput = some peer) :
    ∃ input rest, sender.inbox = input :: rest ∧
      ((∃ e, sender.finder.onInput input = .error e ∧
        peer = { sender with inbox := rest, failed := some e }) ∨
      ∃ finder, sender.finder.onInput input = .ok finder ∧
        peer = (finder.outputs.drop sender.finder.outputs.length).foldl AoiPeer.onOutput
          { sender with inbox := rest, finder := finder }) := by
  unfold AoiPeer.takeInput at h
  split at h
  · cases h
  · rename_i input rest hinbox
    refine ⟨input, rest, hinbox, ?_⟩
    split at h
    · rename_i e he
      exact Or.inl ⟨e, he, (Option.some.inj h).symm⟩
    · rename_i finder hok
      exact Or.inr ⟨finder, hok, (Option.some.inj h).symm⟩

/-- An input of the sender. -/
theorem Sends.takeInput (h : Sends sender) (hstep : sender.takeInput = some peer) :
    Sends peer ∧ sender.capability <+: peer.capability := by
  obtain ⟨input, rest, hinbox, hcases⟩ := takeInput_cases hstep
  have hrest : ∀ input' ∈ rest, InputWithin input' :=
    fun input' hmem => h.inbox input' (hinbox ▸ List.mem_cons_of_mem _ hmem)
  rcases hcases with ⟨e, -, rfl⟩ | ⟨finder, hok, rfl⟩
  · refine ⟨⟨h.finder, hrest, ⟨h.emitted.capability, fun hnone => ?_, h.emitted.areaOfInterest⟩⟩,
      List.prefix_refl _⟩
    cases hnone
  · obtain ⟨⟨more, hmore⟩, -⟩ := onInput_keeps hok
    have hdrop : finder.outputs.drop sender.finder.outputs.length = more := by
      rw [← hmore, List.drop_left]
    rw [hdrop]
    have hold : Emitted sender.finder.outputs { sender with inbox := rest, finder := finder } :=
      ⟨h.emitted.capability, h.emitted.complete, h.emitted.areaOfInterest⟩
    have hinside := sameInside_foldl more { sender with inbox := rest, finder := finder }
    have hemitted := hold.foldl more
    refine ⟨⟨?_, ?_, ?_⟩, hinside.capability⟩
    · rw [hinside.finder]
      exact h.finder.onInput (h.inbox input (hinbox ▸ List.mem_cons_self)) hok
    · rw [hinside.inbox]
      exact hrest
    · rw [hinside.finder]
      show Emitted finder.outputs _
      rw [← hmore]
      exact hemitted

/-- An input of the receiver. -/
theorem Accepts.takeInput {caps : Nat} (h : Accepts sender receiver caps)
    (halive : receiver.failed = none) (hstep : receiver.takeInput = some peer) :
    Accepts sender peer caps := by
  obtain ⟨input, rest, -, ⟨e, herror, rfl⟩ | ⟨finder, hok, rfl⟩⟩ := takeInput_cases hstep
  · refine ⟨h.caps_le, fun hnone => ?_, fun heq => ?_⟩
    · cases hnone
    · rw [onInput_error herror] at heq
      cases heq
  · obtain ⟨-, htheirs⟩ := onInput_keeps hok
    have hinside := sameInside_foldl (finder.outputs.drop receiver.finder.outputs.length)
      { receiver with inbox := rest, finder := finder }
    refine ⟨h.caps_le, fun _ => ?_, hinside.accepted h.accepted⟩
    rw [hinside.finder]
    show finder.caps.theirs.Mirrors _
    rw [htheirs]
    exact h.theirs halive

omit [WillowDataModel] in
/-- A failed session has sent what it had sent. -/
theorem Sends.fail (h : Sends sender) (e : Error) : Sends { sender with failed := some e } := by
  refine ⟨h.finder, h.inbox, h.emitted.capability, fun hnone => ?_, h.emitted.areaOfInterest⟩
  cases hnone

omit [WillowDataModel] in
/-- An area of interest for the sender. -/
theorem Sends.onAreaOfInterest (h : Sends sender) {message : AreaOfInterest × Nat}
    (hstep : sender.onAreaOfInterest message = some peer) :
    Sends peer ∧ sender.capability <+: peer.capability := by
  unfold AoiPeer.onAreaOfInterest at hstep
  split at hstep
  · cases hstep
  · split at hstep
    · obtain rfl := Option.some.inj hstep
      refine ⟨h.push ?_, List.prefix_refl _⟩
      exact inputWithin_of_ne fun interests heq => by cases heq
    · obtain rfl := Option.some.inj hstep
      exact ⟨h.fail _, List.prefix_refl _⟩

variable [Meadowcap]

omit [WillowDataModel] in
/-- A capability for the sender. -/
theorem Sends.onReadCapability (h : Sends sender) (message : SetupBindReadCapability) :
    Sends (sender.onReadCapability message) ∧
      sender.capability <+: (sender.onReadCapability message).capability := by
  unfold AoiPeer.onReadCapability
  cases hvalid : sender.finder.caps.validateAndBindTheirs message.capability
      message.signature with
  | error e => exact ⟨h.fail e, List.prefix_refl _⟩
  | ok c =>
      obtain ⟨-, -, -, -, rfl⟩ := Capabilities.validateAndBindTheirs_ok hvalid
      refine ⟨⟨⟨h.finder.bound, h.finder.interests, h.finder.messages⟩, h.inbox, ?_⟩,
        List.prefix_refl _⟩
      exact ⟨h.emitted.capability, h.emitted.complete, h.emitted.areaOfInterest⟩

omit [WillowDataModel] in
/-- The next capability is bound under the number that it has for the sender. -/
theorem Accepts.onReadCapability {caps : Nat} (h : Accepts sender receiver caps)
    (halive : receiver.failed = none) {message : SetupBindReadCapability}
    (hmessage : sender.capability[caps]? = some message) :
    Accepts sender (receiver.onReadCapability message) (caps + 1) := by
  have hlt := (List.getElem?_eq_some_iff.mp hmessage).1
  unfold AoiPeer.onReadCapability
  cases hvalid : receiver.finder.caps.validateAndBindTheirs message.capability
      message.signature with
  | error e =>
      refine ⟨hlt, fun hnone => ?_, fun heq => ?_⟩
      · cases hnone
      · exact Capabilities.validateAndBindTheirs_ne hvalid (Option.some.inj heq)
  | ok c =>
      obtain ⟨-, -, -, -, rfl⟩ := Capabilities.validateAndBindTheirs_ok hvalid
      refine ⟨hlt, fun _ => ?_, h.accepted⟩
      rw [List.take_add_one, hmessage, Option.toList_some, List.map_append]
      exact (h.theirs halive).bind

omit [WillowDataModel] [Meadowcap] in
/-- An area of interest is included in the granted area of the capability that the
receiver has under its number. -/
theorem Accepts.onAreaOfInterest {caps : Nat} (h : Accepts sender receiver caps)
    (hsends : Sends sender) (halive : receiver.failed = none) {message : AreaOfInterest × Nat}
    (hmessage : message ∈ sender.areaOfInterest)
    (hstep : receiver.onAreaOfInterest message = some peer) : Accepts sender peer caps := by
  obtain ⟨cap, hcap, harea⟩ :=
    hsends.finder.messages message (hsends.emitted.areaOfInterest hmessage)
  unfold AoiPeer.onAreaOfInterest at hstep
  split at hstep
  · cases hstep
  · rename_i found hfound
    -- what the receiver has bound is a prefix of what the sender has requested
    obtain rfl : found = cap := by
      rw [(h.theirs halive).tryGet, List.map_take, List.getElem?_take] at hfound
      split at hfound
      · obtain ⟨more, hmore⟩ := hsends.emitted.capability
        have hlt := (List.getElem?_eq_some_iff.mp hfound).1
        rw [← hmore, List.getElem?_append_left hlt, hfound] at hcap
        exact Option.some.inj hcap
      · cases hfound
    rw [if_pos harea] at hstep
    obtain rfl := Option.some.inj hstep
    exact ⟨h.caps_le, h.theirs, h.accepted⟩

/-- The interests that a session adds are `map`, or within its capabilities anyway. -/
def Adds (map : InterestMap) (p : Role) (_s : AoiExchange) (a : Action) : Prop :=
  ∀ interests, a = .addInterests p interests → interests = map ∨ InterestMap.Within interests

/-- **One step** of a session whose interests are within its capabilities, or of its
peer. -/
theorem WithinInv.step {map : InterestMap} (hmap : map.Within) (h : WithinInv p s) {a : Action}
    (hadds : Adds map p s a) (hstep : AoiExchange.step s a = some s') : WithinInv p s' := by
  obtain ⟨hsends, haccepts⟩ := id h
  cases step_sound hstep with
  | addInterests q interests halive =>
      rcases Role.eq_or_eq_other p q with rfl | rfl
      · refine h.of_sender rfl rfl (hsends.push fun interests' heq => ?_) (List.prefix_refl _)
        obtain rfl := Input.addInterests.inj heq
        rcases hadds interests rfl with rfl | hwithin
        · exact hmap
        · exact hwithin
      · exact h.of_receiver rfl ⟨haccepts.caps_le, haccepts.theirs, haccepts.accepted⟩
  | paiIntersection q authorisation handle halive hsubmitted =>
      rcases Role.eq_or_eq_other p q with rfl | rfl
      · refine h.of_sender rfl rfl (hsends.push ?_) (List.prefix_refl _)
        exact inputWithin_of_ne fun interests heq => by cases heq
      · exact h.of_receiver rfl ⟨haccepts.caps_le, haccepts.theirs, haccepts.accepted⟩
  | deliverCapability q message halive hmessage =>
      rcases Role.eq_or_eq_other p q with rfl | rfl
      · obtain ⟨hsends', hsent⟩ := hsends.onReadCapability message
        exact h.of_sender rfl (Function.update_of_ne q.other_ne _ _) hsends' hsent
      · rw [Role.other_other] at hmessage
        refine h.of_receiver rfl ?_
        show Accepts _ _ (Function.update s.receivedCapability p.other _ p.other)
        rw [Function.update_self]
        exact haccepts.onReadCapability halive hmessage
  | deliverAoi q message peer halive hmessage hpeer =>
      rcases Role.eq_or_eq_other p q with rfl | rfl
      · obtain ⟨hsends', hsent⟩ := hsends.onAreaOfInterest hpeer
        exact h.of_sender rfl rfl hsends' hsent
      · rw [Role.other_other] at hmessage
        exact h.of_receiver rfl (haccepts.onAreaOfInterest hsends halive
          (List.mem_of_getElem? hmessage) hpeer)
  | takeInput q peer halive hpeer =>
      rcases Role.eq_or_eq_other p q with rfl | rfl
      · obtain ⟨hsends', hsent⟩ := hsends.takeInput hpeer
        exact h.of_sender rfl rfl hsends' hsent
      · exact h.of_receiver rfl (haccepts.takeInput halive hpeer)

/-- In no run does the other session reject an area of interest of a session that adds
the interests `map`, and other interests within its capabilities. -/
def NeverRejected (map : InterestMap) : Prop :=
  ∀ nonce secrets p s, Transition.Reachable step (Adds map p) (start nonce secrets) s →
    (s.peer p.other).failed ≠ some .unauthorisedArea

theorem neverRejected_of_within {map : InterestMap} (hmap : map.Within) : NeverRejected map := by
  intro nonce secrets p s hs
  have hinv : WithinInv p s := hs.invariant (withinInv_start nonce secrets p)
    fun _ _ _ h hadds hstep => h.step hmap hadds hstep
  exact hinv.2.accepted

/-- **Interests and capabilities.** The areas of interest that interests resolve to
are included in what their capabilities grant, and are accepted by the peer in every
run, exactly when every `Exact` area is included in the granted area of the capability
that its selector finds. -/
theorem interests_within_iff {a : Intents.Auth} {interests : Intents.Interests}
    {map : InterestMap} (h : a.resolveInterests interests = some map) :
    map.Within ∧ NeverRejected map ↔ Intents.SelectsWithin a interests := by
  rw [← Intents.within_iff h]
  constructor
  · intro hboth
    exact hboth.1
  · intro hwithin
    exact ⟨hwithin, neverRejected_of_within hwithin⟩

end AoiExchange

/-! ### Two read capabilities of one namespace -/

/-- `Auth` over the in-memory store. -/
def Memory.CapsMaps.auth (caps : Memory.CapsMaps) : Intents.Auth where
  listReadCaps := some (caps.listReadCaps none)
  getReadCap s := some (caps.getReadCap s)

section Samples

open IrohWillow.Sample AoiExchange

attribute [local instance] acceptingSignatures AoiExchange.Sample.equalAreas

/-- Read access to the extensions of one path. -/
def Sample.readAccess (component : Byte) : ReadAuthorisation :=
  ⟨{ accessMode := .read
     receiver := userId
     grantedNamespace := namespaceId
     grantedArea := ⟨.any, pathOf [[component]], .newOpen 0⟩
     delegations := [] }, none⟩

/-- A store with read access to two paths. -/
def Sample.twoPaths : Memory.CapsMaps :=
  Memory.CapsMaps.insertAll [.read (readAccess 1), .read (readAccess 2)]

/-- The area of one of them, with whatever capability of the namespace is widest. -/
def Sample.select (component : Byte) : Intents.Interests :=
  .select [(⟨namespaceId, .any, .widest⟩,
    .exact [⟨(readAccess component).readCap.grantedArea, 0, 0⟩])]

theorem Sample.resolve_select (component : Byte) (hcomponent : component = 1 ∨ component = 2) :
    twoPaths.auth.resolveInterests (select component) =
      some [(readAccess 1, [⟨(readAccess component).readCap.grantedArea, 0, 0⟩])] := by
  rcases hcomponent with rfl | rfl
  · decide
  · decide

/-- The area of the capability that is found is accepted. -/
theorem own_path_accepted :
    ∃ map, twoPaths.auth.resolveInterests (select 1) = some map ∧ map.Within ∧
      NeverRejected map := by
  have hresolve := resolve_select 1 (Or.inl rfl)
  refine ⟨_, hresolve, (interests_within_iff hresolve).mpr ?_⟩
  intro s aois hmem auth hcap x hx
  obtain ⟨rfl, haois⟩ := Prod.mk.inj (List.mem_singleton.mp hmem)
  obtain rfl := Intents.AreaOfInterestSelector.exact.inj haois
  rw [List.mem_singleton.mp hx]
  have hfound : twoPaths.auth.getReadCap ⟨namespaceId, .any, .widest⟩ =
      some (some (readAccess 1)) := by decide
  obtain rfl := Option.some.inj (Option.some.inj (hfound.symm.trans hcap))
  exact Area.IncludesArea.refl _

/-- The session sends the area of the second path with the capability of the first. -/
def Sample.rejection (map : Intents.InterestMap) : List Action :=
  [.addInterests .alfie map, .takeInput .alfie, .paiIntersection .alfie (readAccess 1) 0,
    .takeInput .alfie, .deliverCapability .betty, .deliverAoi .betty]

set_option maxRecDepth 4000 in
/-- The area that one stored capability grants is paired with the other one, and the
peer rejects it. -/
theorem other_path_rejected :
    ∃ map, twoPaths.auth.resolveInterests (select 2) = some map ∧
      readAccess 2 ∈ twoPaths.listReadCaps none ∧ ¬ map.Within ∧ ¬ NeverRejected map := by
  refine ⟨_, resolve_select 2 (Or.inr rfl), by decide, fun hwithin => ?_, fun hnever => ?_⟩
  · have hincludes := hwithin (readAccess 1) ⟨(readAccess 2).readCap.grantedArea, 0, 0⟩
      ⟨_, List.mem_singleton_self _, List.mem_singleton_self _⟩
    exact absurd hincludes (by decide)
  · set map : Intents.InterestMap :=
      [(readAccess 1, [⟨(readAccess 2).readCap.grantedArea, 0, 0⟩])] with hmap
    have hrun : (Transition.run step AoiExchange.Sample.session (rejection map)).map
        (fun s => (s.peer .betty).failed) = some (some .unauthorisedArea) := by
      rfl
    obtain ⟨s, hs, hfailed⟩ := Option.map_eq_some_iff.mp hrun
    have hallowed : Transition.AllowedAlong step (Adds map .alfie) AoiExchange.Sample.session
        (rejection map) := by
      have hother : ∀ s (a : Action), (∀ interests, a ≠ .addInterests .alfie interests) →
          Adds map .alfie s a := fun s a hne interests heq => absurd heq (hne interests)
      refine ⟨fun interests heq => Or.inl (Action.addInterests.inj heq).2.symm, ?_⟩
      refine ⟨hother _ _ (by simp), hother _ _ (by simp), hother _ _ (by simp),
        hother _ _ (by simp), hother _ _ (by simp), trivial⟩
    exact hnever _ _ .alfie s (.of_run hs hallowed) hfailed

end Samples

end IrohWillow
