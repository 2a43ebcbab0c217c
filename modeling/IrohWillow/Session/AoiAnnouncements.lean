import IrohWillow.Session.AoiOutputs
import IrohWillow.Lib.Transition

/-!
# How areas of interest are announced

An area of interest of ours is bound and sent in a `SetupBindAreaOfInterest`
message, from two places: when an interest is added and its read capability is
bound already, and when the private area intersection has found something for
its authorisation. The second place sends all areas of interest of the
authorisation, also those that were sent before; each interest is announced
exactly once in the runs where this does not happen.
-/

namespace IrohWillow

namespace IntersectionFinder

/-- The `SetupBindAreaOfInterest` messages among the outputs. -/
def messages (outputs : List Output) : List (AreaOfInterest × Nat) :=
  outputs.filterMap fun
    | .sendMessage areaOfInterest authorisation => some (areaOfInterest, authorisation)
    | _ => none

/-- The intersections among the outputs. -/
def found (outputs : List Output) : List AoiIntersection :=
  outputs.filterMap fun
    | .aoiIntersection i => some i
    | _ => none

/-- The areas of interest `new` are bound, each is sent with the handle of a
capability, and nothing else is asked of the session. -/
structure Announces (f f' : IntersectionFinder) (new : List (AoiInfo × Nat)) : Prop where
  caps : f'.caps = f.caps
  theirHandles : f'.handles.theirHandles = f.handles.theirHandles
  ourHandles : ∀ ours, f.handles.ourHandles.Mirrors ours →
    f'.handles.ourHandles.Mirrors (ours ++ new.map (·.1))
  messages : messages f'.outputs = messages f.outputs ++ new.map fun x => (x.1.aoi, x.2)
  requests : f'.outputs.filter isRequest = f.outputs.filter isRequest

variable {f f' f'' : IntersectionFinder} {new new' : List (AoiInfo × Nat)}

theorem Announces.refl (f : IntersectionFinder) : Announces f f [] :=
  ⟨rfl, rfl, by simp, by simp, rfl⟩

theorem Announces.trans (h : Announces f f' new) (h' : Announces f' f'' new') :
    Announces f f'' (new ++ new') where
  caps := h'.caps.trans h.caps
  theirHandles := h'.theirHandles.trans h.theirHandles
  ourHandles ours hours := by
    rw [List.map_append, ← List.append_assoc]
    exact h'.ourHandles _ (h.ourHandles ours hours)
  messages := by rw [h'.messages, h.messages, List.map_append, List.append_assoc]
  requests := h'.requests.trans h.requests

variable [WillowDataModel]

theorem announces_bindAndSendOurs (f : IntersectionFinder) (ns : NamespaceId)
    (authorisation : Nat) (aoi : AreaOfInterest) :
    Announces f (f.bindAndSendOurs ns authorisation aoi) [(⟨aoi, ns⟩, authorisation)] := by
  have hfound : ∀ is : List AoiIntersection,
      (is.map Output.aoiIntersection).filter isRequest = [] := by
    intro is
    rw [List.filter_map, List.map_eq_nil_iff, List.filter_eq_nil_iff]
    intro i _
    simp [isRequest]
  refine ⟨rfl, rfl, fun ours hours => hours.bind, ?_, ?_⟩
  · show messages ((f.outputs ++ List.map _ _) ++ [.sendMessage aoi authorisation]) = _
    rw [messages, List.filterMap_append, List.filterMap_append]
    simp [messages]
  · show ((f.outputs ++ List.map _ _) ++
      [Output.sendMessage aoi authorisation]).filter isRequest = _
    rw [List.filter_append, List.filter_append, hfound]
    simp [isRequest]

/-- Several areas of interest, one after the other. -/
theorem announces_foldl (f : IntersectionFinder) (ns : NamespaceId) (authorisation : Nat)
    (aois : List AreaOfInterest) :
    Announces f (aois.foldl (fun f aoi => f.bindAndSendOurs ns authorisation aoi) f)
      (aois.map fun aoi => (⟨aoi, ns⟩, authorisation)) ∧
    (aois.foldl (fun f aoi => f.bindAndSendOurs ns authorisation aoi) f).interests =
      f.interests := by
  induction aois generalizing f with
  | nil => exact ⟨.refl f, rfl⟩
  | cons aoi aois ih =>
      obtain ⟨hrest, hinterests⟩ := ih (f.bindAndSendOurs ns authorisation aoi)
      exact ⟨(announces_bindAndSendOurs f ns authorisation aoi).trans hrest, hinterests⟩

/-- What is announced when areas of interest are added to a known authorisation. -/
def announcements (f : IntersectionFinder) (a : ReadAuthorisation) (aois : List AreaOfInterest) :
    List (AoiInfo × Nat) :=
  match f.caps.findOurs a.readCap with
  | none => []
  | some h => aois.map fun aoi => (⟨aoi, a.namespaceId⟩, h)

omit [WillowDataModel] in
theorem announcements_cons (f : IntersectionFinder) (a : ReadAuthorisation) (aoi : AreaOfInterest)
    (aois : List AreaOfInterest) : f.announcements a (aoi :: aois) =
      f.announcements a [aoi] ++ f.announcements a aois := by
  unfold announcements
  cases f.caps.findOurs a.readCap <;> rfl

/-- A new area of interest of a known authorisation. -/
theorem announces_addKnown {a : ReadAuthorisation} {existing : List AreaOfInterest}
    (hknown : f.interests a = some existing) {aoi : AreaOfInterest} (hnew : aoi ∉ existing) :
    Announces f (addKnown a f aoi) (f.announcements a [aoi]) ∧
      (addKnown a f aoi).interests =
        Function.update f.interests a (some (existing ++ [aoi])) := by
  have hinsert : Announces f { f with
      interests := Function.update f.interests a (some (existing ++ [aoi])) } [] :=
    ⟨rfl, rfl, by simp, by simp, rfl⟩
  simp only [addKnown, hknown, Option.getD_some, hnew, if_false, announcements]
  cases hfind : f.caps.findOurs a.readCap with
  | none => exact ⟨hinsert, rfl⟩
  | some h => exact ⟨hinsert.trans (announces_bindAndSendOurs _ a.namespaceId h aoi), rfl⟩

/-- The new areas of interest of a known authorisation. -/
theorem announces_foldl_addKnown {a : ReadAuthorisation} {existing : List AreaOfInterest}
    (hknown : f.interests a = some existing) (aois : List AreaOfInterest) :
    ∃ new, (∀ x, x ∈ new ↔ x ∈ aois ∧ x ∉ existing) ∧ new.Nodup ∧
      Announces f (aois.foldl (addKnown a) f) (f.announcements a new) ∧
      (aois.foldl (addKnown a) f).interests =
        Function.update f.interests a (some (existing ++ new)) := by
  induction aois generalizing f existing with
  | nil =>
      have hnil : f.announcements a [] = [] := by
        unfold announcements
        cases f.caps.findOurs a.readCap <;> rfl
      refine ⟨[], by simp, List.nodup_nil, hnil ▸ .refl f, ?_⟩
      rw [List.append_nil, ← hknown, Function.update_eq_self]
      rfl
  | cons aoi aois ih =>
      rw [List.foldl_cons]
      by_cases hmem : aoi ∈ existing
      · have hsame : addKnown a f aoi = f := by simp [addKnown, hknown, hmem]
        obtain ⟨new, hnew, hnodup, hannounces, hinterests⟩ := ih hknown
        rw [hsame]
        refine ⟨new, fun x => ?_, hnodup, hannounces, hinterests⟩
        rw [hnew, List.mem_cons]
        constructor
        · exact fun h => ⟨.inr h.1, h.2⟩
        · rintro ⟨rfl | hx, hnot⟩
          · exact absurd hmem hnot
          · exact ⟨hx, hnot⟩
      · obtain ⟨hfirst, hupdate⟩ := announces_addKnown hknown hmem
        have hknown' : (addKnown a f aoi).interests a = some (existing ++ [aoi]) := by
          rw [hupdate, Function.update_self]
        obtain ⟨new, hnew, hnodup, hannounces, hinterests⟩ := ih hknown'
        have hsame : (addKnown a f aoi).announcements a new = f.announcements a new := by
          unfold announcements
          rw [hfirst.caps]
        refine ⟨aoi :: new, fun x => ?_, ?_, ?_, ?_⟩
        · simp only [List.mem_cons, hnew, List.mem_append, List.not_mem_nil, or_false, not_or]
          by_cases hx : x = aoi
          · subst hx
            simp [hmem]
          · simp [hx]
        · refine List.nodup_cons.mpr ⟨fun h => ?_, hnodup⟩
          exact ((hnew aoi).mp h).2 (by simp)
        · rw [announcements_cons, ← hsame]
          exact hfirst.trans hannounces
        · rw [hinterests, hupdate, Function.update_idem]
          simp

/-- **An intersection.** The read capability is bound, and all areas of interest of
the authorisation are announced with its handle. -/
theorem announces_onPaiIntersection {a : ReadAuthorisation} {handle : Nat}
    (h : f.onPaiIntersection a handle = .ok f') :
    ∃ aois k f₁, f.interests a = some aois ∧
      (f.caps.ours.tryGet k = some a.readCap ∧ f₁ = f ∨
        k = f.caps.ours.nextHandle ∧ f.caps.ours.find a.readCap = none ∧
          f₁ = ({ f with caps := { f.caps with ours := (f.caps.ours.bind a.readCap).2 } }).yield
            [.signAndSendCapability handle a.readCap]) ∧
      Announces f₁ f' (aois.map fun aoi => (⟨aoi, a.namespaceId⟩, k)) ∧
      f'.interests = f.interests := by
  unfold onPaiIntersection at h
  split at h
  · cases h
  · rename_i aois haois
    refine ⟨aois, ?_⟩
    cases hfind : f.caps.ours.find a.readCap with
    | some k =>
        have hbind : f.bindCapability a handle = (k, f) := by
          simp [bindCapability, Capabilities.bindOurs, ResourceMap.bindIfNew, hfind]
        rw [hbind] at h
        obtain rfl := Except.ok.inj h
        obtain ⟨hannounces, hinterests⟩ := announces_foldl f a.namespaceId k aois
        exact ⟨k, f, haois, .inl ⟨ResourceMap.tryGet_of_find hfind, rfl⟩, hannounces, hinterests⟩
    | none =>
        set f₁ := ({ f with
          caps := { f.caps with ours := (f.caps.ours.bind a.readCap).2 } }).yield
            [.signAndSendCapability handle a.readCap] with hf₁
        have hbind : f.bindCapability a handle = (f.caps.ours.nextHandle, f₁) := by
          simp [bindCapability, Capabilities.bindOurs, ResourceMap.bindIfNew, hfind,
            ResourceMap.bind, hf₁]
        rw [hbind] at h
        obtain rfl := Except.ok.inj h
        obtain ⟨hannounces, hinterests⟩ :=
          announces_foldl f₁ a.namespaceId f.caps.ours.nextHandle aois
        exact ⟨_, f₁, haois, .inr ⟨rfl, rfl, rfl⟩, hannounces, hinterests⟩

end IntersectionFinder

/-! ## Inputs in a row -/

/-- An `IntersectionFinder`, and the authorisations for which it was told of a
private area intersection. -/
structure Announcer where
  finder : IntersectionFinder
  intersected : List ReadAuthorisation := []

namespace Announcer

open IntersectionFinder

/-- The authorisation of a private area intersection. -/
def intersectedBy : Input → List ReadAuthorisation
  | .paiIntersection a _ => [a]
  | .addInterests _ => []
  | .receivedValidatedAoi _ _ => []

/-- The finder takes an input; `none` when it fails. -/
def step [WillowDataModel] (s : Announcer) (input : Input) : Option Announcer :=
  match s.finder.onInput input with
  | .error _ => none
  | .ok finder => some ⟨finder, s.intersected ++ intersectedBy input⟩

/-- A new session. -/
def start (ourNonce : AccessChallenge) (receivedCommitment : Bytes 32) : Announcer :=
  ⟨{ caps := .new ourNonce receivedCommitment }, []⟩

/-- `InterestMap` is a hash map of hash sets. -/
def IsInterestMap : Input → Prop
  | .addInterests interests => (interests.map (·.1)).Nodup ∧ ∀ e ∈ interests, e.2.Nodup
  | .paiIntersection _ _ => True
  | .receivedValidatedAoi _ _ => True

/-- The read capability of the authorisation is bound under the handle. -/
def BoundAt (f : IntersectionFinder) (a : ReadAuthorisation) (h : Nat) : Prop :=
  f.caps.ours.tryGet h = some a.readCap

/-- None of the areas of interest that are new for a known authorisation, whose read
capability is bound, was sent with the read capability before, and none is added
for two such authorisations with the same read capability. -/
structure FreshInterests (f : IntersectionFinder)
    (interests : List (ReadAuthorisation × List AreaOfInterest)) : Prop where
  unsent : ∀ e ∈ interests, ∀ existing h, f.interests e.1 = some existing → BoundAt f e.1 h →
    ∀ x ∈ e.2, x ∉ existing → (x, h) ∉ messages f.outputs
  apart : interests.Pairwise fun e e' => e.1.readCap = e'.1.readCap → (∃ h, BoundAt f e.1 h) →
    f.interests e.1 ≠ none → f.interests e'.1 ≠ none → ∀ x ∈ e.2, x ∉ e'.2

/-- **The condition.** When a private area intersection is found, no area of interest
of the authorisation was sent with its read capability before; and added interests
are fresh. -/
def NotYetSent (s : Announcer) : Input → Prop
  | .paiIntersection a _ => ∀ aois h, s.finder.interests a = some aois → BoundAt s.finder a h →
      ∀ x ∈ aois, (x, h) ∉ messages s.finder.outputs
  | .addInterests interests => FreshInterests s.finder interests
  | .receivedValidatedAoi _ _ => True

/-! ## Handles stand for messages -/

/-- The capability handles of a session are distinct, and the areas of interest are
bound in the order of the messages, in the namespace of the capability that the
message names. -/
structure WellBound (f : IntersectionFinder) : Prop where
  dense : f.caps.ours.Dense
  distinct : ∀ h h' cap, f.caps.ours.tryGet h = some cap → f.caps.ours.tryGet h' = some cap →
    h = h'
  bound : ∃ infos, f.handles.ourHandles.Mirrors infos ∧
    List.Forall₂ (fun m info => info.aoi = m.1 ∧ ∃ cap, f.caps.ours.tryGet m.2 = some cap ∧
      info.namespaceId = cap.grantedNamespace) (messages f.outputs) infos

variable {f f' : IntersectionFinder} {new : List (AoiInfo × Nat)}

theorem wellBound_start (ourNonce : AccessChallenge) (receivedCommitment : Bytes 32) :
    WellBound (start ourNonce receivedCommitment).finder where
  dense := ResourceMap.dense_empty
  distinct h h' cap hcap := by
    simp [start, Capabilities.new, ResourceMap.tryGet] at hcap
  bound := ⟨[], ResourceMap.mirrors_empty, .nil⟩

/-- A message names a bound capability. -/
theorem WellBound.tryGet_of_mem (h : WellBound f) {x : AreaOfInterest} {k : Nat}
    (hmem : (x, k) ∈ messages f.outputs) : (f.caps.ours.tryGet k).isSome := by
  obtain ⟨infos, -, hforall⟩ := h.bound
  obtain ⟨i, hi, hget⟩ := List.mem_iff_getElem.mp hmem
  have hlen := hforall.length_eq
  obtain ⟨-, cap, hcap, -⟩ := (List.forall₂_iff_get.mp hforall).2 i hi (hlen ▸ hi)
  simp only [List.get_eq_getElem, hget] at hcap
  simp [hcap]

theorem WellBound.announces (h : WellBound f) (hnew : Announces f f' new)
    (hcaps : ∀ x ∈ new, ∃ cap, f.caps.ours.tryGet x.2 = some cap ∧
      x.1.namespaceId = cap.grantedNamespace) : WellBound f' := by
  obtain ⟨infos, hmirrors, hforall⟩ := h.bound
  refine ⟨hnew.caps ▸ h.dense, hnew.caps ▸ h.distinct, infos ++ new.map (·.1),
    hnew.ourHandles infos hmirrors, ?_⟩
  rw [hnew.caps, hnew.messages]
  refine List.rel_append hforall ?_
  rw [List.forall₂_map_left_iff, List.forall₂_map_right_iff, List.forall₂_same]
  exact fun x hx => ⟨rfl, hcaps x hx⟩

/-- A capability that is not bound yet is bound. -/
theorem WellBound.bindCapability (h : WellBound f) {a : ReadAuthorisation} {handle : Nat}
    (hfind : f.caps.ours.find a.readCap = none) :
    WellBound (({ f with caps := { f.caps with ours := (f.caps.ours.bind a.readCap).2 } }).yield
      [.signAndSendCapability handle a.readCap]) := by
  have hnone : ∀ k, f.caps.ours.tryGet k ≠ some a.readCap :=
    fun k hk => ResourceMap.find_ne_none hk hfind
  have hmessages : messages (f.outputs ++ [.signAndSendCapability handle a.readCap]) =
      messages f.outputs := by
    simp [messages]
  obtain ⟨infos, hmirrors, hforall⟩ := h.bound
  refine ⟨h.dense.bind, fun k k' cap hk hk' => ?_, infos, hmirrors, ?_⟩
  · by_cases heq : k = f.caps.ours.nextHandle
    · by_cases heq' : k' = f.caps.ours.nextHandle
      · rw [heq, heq']
      · rw [heq] at hk
        obtain rfl : a.readCap = cap := Option.some.inj (ResourceMap.tryGet_bind_self.symm.trans hk)
        exact absurd ((ResourceMap.tryGet_bind_of_ne heq').symm.trans hk') (hnone k')
    · have hold : f.caps.ours.tryGet k = some cap :=
        (ResourceMap.tryGet_bind_of_ne heq).symm.trans hk
      by_cases heq' : k' = f.caps.ours.nextHandle
      · rw [heq'] at hk'
        obtain rfl : a.readCap = cap := Option.some.inj (ResourceMap.tryGet_bind_self.symm.trans hk')
        exact absurd hold (hnone k)
      · exact h.distinct k k' cap hold ((ResourceMap.tryGet_bind_of_ne heq').symm.trans hk')
  · show List.Forall₂ _ (messages (f.outputs ++ _)) _
    rw [hmessages]
    refine hforall.imp ?_
    rintro m info ⟨haoi, cap, hcap, hns⟩
    exact ⟨haoi, cap, h.dense.tryGet_bind hcap, hns⟩

/-! ## Each interest once -/

/-- **The invariant.** No message was sent twice, and the areas of interest of an
authorisation for which an intersection was found are sent with its read capability. -/
structure Once (f : IntersectionFinder) (intersected : List ReadAuthorisation) : Prop where
  wellBound : WellBound f
  nodup : (messages f.outputs).Nodup
  sets : ∀ a aois, f.interests a = some aois → aois.Nodup
  known : ∀ a ∈ intersected, f.interests a ≠ none
  sent : ∀ a ∈ intersected, ∃ h, BoundAt f a h ∧
    ∀ aois, f.interests a = some aois → ∀ x ∈ aois, (x, h) ∈ messages f.outputs

variable {intersected : List ReadAuthorisation}

theorem WellBound.eq_of_boundAt (h : WellBound f) {a : ReadAuthorisation} {k k' : Nat}
    (hk : BoundAt f a k) (hk' : BoundAt f a k') : k = k' := h.distinct k k' _ hk hk'

/-- A read capability is found under its handle. -/
theorem WellBound.findOurs (h : WellBound f) {a : ReadAuthorisation} {k : Nat}
    (hk : BoundAt f a k) : f.caps.findOurs a.readCap = some k := by
  cases hfind : f.caps.findOurs a.readCap with
  | none => exact absurd hfind (ResourceMap.find_ne_none hk)
  | some k' => rw [h.eq_of_boundAt (ResourceMap.tryGet_of_find hfind) hk]

/-- What is announced is announced for the read capability. -/
theorem mem_announcements {a : ReadAuthorisation} {aois : List AreaOfInterest} {x : AoiInfo × Nat}
    (hx : x ∈ f.announcements a aois) :
    BoundAt f a x.2 ∧ x.1.aoi ∈ aois ∧ x.1.namespaceId = a.namespaceId := by
  unfold announcements at hx
  split at hx
  · cases hx
  · rename_i k hfind
    obtain ⟨aoi, haoi, rfl⟩ := List.mem_map.mp hx
    exact ⟨ResourceMap.tryGet_of_find hfind, haoi, rfl⟩

/-- Messages of one capability for distinct areas of interest are distinct. -/
theorem nodup_announcements {a : ReadAuthorisation} {aois : List AreaOfInterest}
    (h : aois.Nodup) : ((f.announcements a aois).map fun x => (x.1.aoi, x.2)).Nodup := by
  unfold announcements
  split
  · exact List.nodup_nil
  · rw [List.map_map]
    exact h.map fun x y heq => (Prod.mk.inj heq).1

/-- A known authorisation gets new areas of interest. -/
theorem Once.addKnown [WillowDataModel] (h : Once f intersected) {a : ReadAuthorisation}
    {existing : List AreaOfInterest} (hknown : f.interests a = some existing)
    (aois : List AreaOfInterest) (hfresh : ∀ k, BoundAt f a k → ∀ x ∈ aois, x ∉ existing →
      (x, k) ∉ messages f.outputs) : Once (aois.foldl (addKnown a) f) intersected := by
  obtain ⟨new, hnew, hnodup, hannounces, hinterests⟩ := announces_foldl_addKnown hknown aois
  have hmessages := hannounces.messages
  refine ⟨?_, ?_, ?_, ?_, ?_⟩
  · refine h.wellBound.announces hannounces fun x hx => ?_
    obtain ⟨hbound, -, hns⟩ := mem_announcements hx
    exact ⟨a.readCap, hbound, hns⟩
  · rw [hmessages, List.nodup_append]
    refine ⟨h.nodup, nodup_announcements hnodup, fun m hm m' hm' heq => ?_⟩
    obtain ⟨x, hx, rfl⟩ := List.mem_map.mp hm'
    obtain ⟨hbound, hmem, -⟩ := mem_announcements hx
    obtain ⟨haois, hnot⟩ := (hnew _).mp hmem
    exact hfresh _ hbound _ haois hnot (heq ▸ hm)
  · intro b bois hb
    rw [hinterests] at hb
    rcases update_eq_some.mp hb with ⟨rfl, rfl⟩ | ⟨-, hb⟩
    · refine List.nodup_append.mpr ⟨h.sets b existing hknown, hnodup, fun x hx y hy heq => ?_⟩
      exact ((hnew y).mp hy).2 (heq ▸ hx)
    · exact h.sets b bois hb
  · intro b hb
    rw [hinterests]
    by_cases hba : b = a
    · subst hba
      simp
    · rw [Function.update_of_ne hba]
      exact h.known b hb
  · intro b hb
    obtain ⟨k, hbound, hsent⟩ := h.sent b hb
    refine ⟨k, ?_, fun bois hbois x hx => ?_⟩
    · rw [BoundAt, hannounces.caps]
      exact hbound
    · rw [hmessages, List.mem_append]
      rw [hinterests] at hbois
      rcases update_eq_some.mp hbois with ⟨rfl, rfl⟩ | ⟨-, hbois⟩
      · rcases List.mem_append.mp hx with hx | hx
        · exact .inl (hsent existing hknown x hx)
        · refine .inr (List.mem_map.mpr ⟨(⟨x, b.namespaceId⟩, k), ?_, rfl⟩)
          unfold announcements
          rw [h.wellBound.findOurs hbound]
          exact List.mem_map.mpr ⟨x, hx, rfl⟩
      · exact .inl (hsent bois hbois x hx)

/-- A new authorisation is submitted. -/
theorem Once.submit (h : Once f intersected) {a : ReadAuthorisation} {aois : List AreaOfInterest}
    (hunknown : f.interests a = none) (hset : aois.Nodup) :
    Once (({ f with interests := Function.update f.interests a (some aois) }).yield
      [.submitAuthorisation a]) intersected := by
  have hmessages : messages (f.outputs ++ [.submitAuthorisation a]) = messages f.outputs := by
    simp [messages]
  have hne : ∀ b ∈ intersected, b ≠ a := by
    rintro b hb rfl
    exact h.known b hb hunknown
  obtain ⟨infos, hmirrors, hforall⟩ := h.wellBound.bound
  refine ⟨⟨h.wellBound.dense, h.wellBound.distinct, infos, hmirrors, ?_⟩, ?_, ?_, ?_, ?_⟩
  · show List.Forall₂ _ (messages (f.outputs ++ _)) _
    rw [hmessages]
    exact hforall
  · show (messages (f.outputs ++ _)).Nodup
    rw [hmessages]
    exact h.nodup
  · intro b bois hb
    rcases update_eq_some.mp hb with ⟨rfl, rfl⟩ | ⟨-, hb⟩
    · exact hset
    · exact h.sets b bois hb
  · intro b hb
    show Function.update f.interests a (some aois) b ≠ none
    rw [Function.update_of_ne (hne b hb)]
    exact h.known b hb
  · intro b hb
    obtain ⟨k, hbound, hsent⟩ := h.sent b hb
    refine ⟨k, hbound, fun bois hbois x hx => ?_⟩
    change Function.update f.interests a (some aois) b = some bois at hbois
    rw [Function.update_of_ne (hne b hb)] at hbois
    show _ ∈ messages (f.outputs ++ _)
    rw [hmessages]
    exact hsent bois hbois x hx

/-- The interests that remain stay fresh when those of another authorisation have
been added. -/
theorem FreshInterests.rest {e : ReadAuthorisation × List AreaOfInterest}
    {rest : List (ReadAuthorisation × List AreaOfInterest)} (h : FreshInterests f (e :: rest))
    (hkeys : ∀ e' ∈ rest, e'.1 ≠ e.1) (hcaps : f'.caps = f.caps)
    (hinterests : ∀ b, b ≠ e.1 → f'.interests b = f.interests b)
    (hmessages : ∀ m ∈ messages f'.outputs, m ∈ messages f.outputs ∨
      f.interests e.1 ≠ none ∧ BoundAt f e.1 m.2 ∧ m.1 ∈ e.2) : FreshInterests f' rest := by
  obtain ⟨happart, hrest⟩ := List.pairwise_cons.mp h.apart
  refine ⟨fun e' he' existing k hknown hbound x hx hnot hmem => ?_, ?_⟩
  · rw [hinterests _ (hkeys e' he')] at hknown
    rw [BoundAt, hcaps] at hbound
    rcases hmessages _ hmem with hmem | ⟨hne, hbound', hx'⟩
    · exact h.unsent e' (List.mem_cons_of_mem _ he') existing k hknown hbound x hx hnot hmem
    · have hsame : e.1.readCap = e'.1.readCap := Option.some.inj (hbound'.symm.trans hbound)
      exact happart e' he' hsame ⟨k, hbound'⟩ hne (by simp [hknown]) x hx' hx
  · refine hrest.imp_of_mem fun {e₁ e₂} h₁ h₂ happart' hsame hbound hk₁ hk₂ => ?_
    rw [hinterests _ (hkeys e₁ h₁)] at hk₁
    rw [hinterests _ (hkeys e₂ h₂)] at hk₂
    refine happart' hsame ?_ hk₁ hk₂
    obtain ⟨k, hk⟩ := hbound
    rw [BoundAt, hcaps] at hk
    exact ⟨k, hk⟩

variable [WillowDataModel]

/-- **Interests** that are fresh. -/
theorem Once.addInterests (h : Once f intersected)
    {interests : List (ReadAuthorisation × List AreaOfInterest)}
    (hkeys : (interests.map (·.1)).Nodup) (hsets : ∀ e ∈ interests, e.2.Nodup)
    (hfresh : FreshInterests f interests) : Once (f.addInterests interests) intersected := by
  induction interests generalizing f with
  | nil => exact h
  | cons e rest ih =>
      obtain ⟨a, aois⟩ := e
      rw [List.map_cons, List.nodup_cons] at hkeys
      have hne : ∀ e' ∈ rest, e'.1 ≠ a :=
        fun e' he' heq => hkeys.1 (List.mem_map.mpr ⟨e', he', heq⟩)
      have hrest : ∀ e' ∈ rest, e'.2.Nodup := fun e' he' => hsets e' (List.mem_cons_of_mem _ he')
      cases hknown : f.interests a with
      | some existing =>
          have hstep : f.addInterests ((a, aois) :: rest) =
              (aois.foldl (IntersectionFinder.addKnown a) f).addInterests rest := by
            simp [IntersectionFinder.addInterests, hknown]
          obtain ⟨new, hnew, -, hannounces, hinterests⟩ := announces_foldl_addKnown hknown aois
          rw [hstep]
          refine ih (h.addKnown hknown aois fun k hk x hx hnot => ?_) hkeys.2 hrest ?_
          · exact hfresh.unsent _ List.mem_cons_self existing k hknown hk x hx hnot
          · refine hfresh.rest hne hannounces.caps (fun b hb => ?_) fun m hm => ?_
            · rw [hinterests, Function.update_of_ne hb]
            · rw [hannounces.messages] at hm
              rcases List.mem_append.mp hm with hm | hm
              · exact .inl hm
              · obtain ⟨x, hx, rfl⟩ := List.mem_map.mp hm
                obtain ⟨hbound, hmem, -⟩ := mem_announcements hx
                exact .inr ⟨by simp [hknown], hbound, ((hnew _).mp hmem).1⟩
      | none =>
          have hstep : f.addInterests ((a, aois) :: rest) =
              (({ f with interests := Function.update f.interests a (some aois) }).yield
                [.submitAuthorisation a]).addInterests rest := by
            simp [IntersectionFinder.addInterests, hknown]
          rw [hstep]
          refine ih (h.submit hknown (hsets _ List.mem_cons_self)) hkeys.2 hrest ?_
          refine hfresh.rest hne rfl (fun b hb => Function.update_of_ne hb _ _) fun m hm => .inl ?_
          change m ∈ messages (f.outputs ++ _) at hm
          simpa [messages] using hm

/-- **An intersection** for an authorisation whose areas of interest were not sent
with its read capability. -/
theorem Once.onPaiIntersection (h : Once f intersected) {a : ReadAuthorisation} {handle : Nat}
    (hfresh : ∀ aois k, f.interests a = some aois → BoundAt f a k →
      ∀ x ∈ aois, (x, k) ∉ messages f.outputs)
    (hok : f.onPaiIntersection a handle = .ok f') : Once f' (intersected ++ [a]) := by
  obtain ⟨aois, k, f₁, haois, hcases, hannounces, hinterests⟩ := announces_onPaiIntersection hok
  -- the capability is bound, and nothing is sent with it yet
  have hbind : WellBound f₁ ∧ BoundAt f₁ a k ∧ messages f₁.outputs = messages f.outputs ∧
      (∀ b j, BoundAt f b j → BoundAt f₁ b j) ∧ ∀ x ∈ aois, (x, k) ∉ messages f.outputs := by
    rcases hcases with ⟨hbound, rfl⟩ | ⟨rfl, hfind, rfl⟩
    · exact ⟨h.wellBound, hbound, rfl, fun _ _ hj => hj, hfresh aois k haois hbound⟩
    · refine ⟨h.wellBound.bindCapability hfind, ResourceMap.tryGet_bind_self, ?_,
        fun b j hj => h.wellBound.dense.tryGet_bind hj, fun x _ hmem => ?_⟩
      · show messages (f.outputs ++ _) = _
        simp [messages]
      · have hsome := h.wellBound.tryGet_of_mem hmem
        simp [h.wellBound.dense.tryGet_nextHandle] at hsome
  obtain ⟨hwell, hbound, hmessages, hmono, hunsent⟩ := hbind
  have hall : messages f'.outputs = messages f.outputs ++ aois.map fun x => (x, k) := by
    rw [hannounces.messages, hmessages, List.map_map]
    rfl
  have hboundAt : ∀ b j, BoundAt f b j → BoundAt f' b j := by
    intro b j hj
    rw [BoundAt, hannounces.caps]
    exact hmono b j hj
  refine ⟨?_, ?_, ?_, ?_, ?_⟩
  · refine hwell.announces hannounces fun x hx => ?_
    obtain ⟨aoi, -, rfl⟩ := List.mem_map.mp hx
    exact ⟨a.readCap, hbound, rfl⟩
  · rw [hall, List.nodup_append]
    refine ⟨h.nodup, (h.sets a aois haois).map fun x y heq => (Prod.mk.inj heq).1, ?_⟩
    rintro m hm m' hm' rfl
    obtain ⟨x, hx, rfl⟩ := List.mem_map.mp hm'
    exact hunsent x hx hm
  · rw [hinterests]
    exact h.sets
  · rw [hinterests]
    intro b hb
    rcases List.mem_append.mp hb with hb | hb
    · exact h.known b hb
    · rw [List.mem_singleton.mp hb, haois]
      simp
  · intro b hb
    rw [hinterests, hall]
    rcases List.mem_append.mp hb with hb | hb
    · obtain ⟨j, hj, hsent⟩ := h.sent b hb
      exact ⟨j, hboundAt b j hj,
        fun bois hbois x hx => List.mem_append_left _ (hsent bois hbois x hx)⟩
    · obtain rfl := List.mem_singleton.mp hb
      refine ⟨k, ?_, fun bois hbois x hx => ?_⟩
      · rw [BoundAt, hannounces.caps]
        exact hbound
      · rw [haois] at hbois
        obtain rfl := Option.some.inj hbois
        exact List.mem_append_right _ (List.mem_map.mpr ⟨x, hx, rfl⟩)

/-- An area of interest of the peer. -/
theorem Once.bindValidated (h : Once f intersected) (ns : NamespaceId) (aoi : AreaOfInterest) :
    Once (f.bindValidated .theirs ns aoi) intersected := by
  have hmessages : messages (f.bindValidated .theirs ns aoi).outputs = messages f.outputs := by
    show messages (f.outputs ++ List.map _ _) = _
    simp [messages]
  obtain ⟨infos, hmirrors, hforall⟩ := h.wellBound.bound
  refine ⟨⟨h.wellBound.dense, h.wellBound.distinct, infos, hmirrors, ?_⟩, ?_, h.sets, h.known, ?_⟩
  · rw [hmessages]
    exact hforall
  · rw [hmessages]
    exact h.nodup
  · rw [hmessages]
    exact h.sent

/-- **One input.** -/
theorem Once.step {s s' : Announcer} (h : Once s.finder s.intersected) {input : Input}
    (hmap : IsInterestMap input) (hnew : NotYetSent s input)
    (hstep : step s input = some s') : Once s'.finder s'.intersected := by
  unfold Announcer.step at hstep
  split at hstep
  · cases hstep
  · rename_i finder hok
    obtain rfl := Option.some.inj hstep
    cases input with
    | addInterests interests =>
        obtain rfl := Except.ok.inj hok
        rw [intersectedBy, List.append_nil]
        exact h.addInterests hmap.1 hmap.2 hnew
    | paiIntersection a handle => exact h.onPaiIntersection hnew hok
    | receivedValidatedAoi ns aoi =>
        obtain rfl := Except.ok.inj hok
        rw [intersectedBy, List.append_nil]
        exact h.bindValidated ns aoi

omit [WillowDataModel] in
theorem once_start (ourNonce : AccessChallenge) (receivedCommitment : Bytes 32) :
    Once (start ourNonce receivedCommitment).finder [] where
  wellBound := wellBound_start ourNonce receivedCommitment
  nodup := List.nodup_nil
  sets a aois h := by simp [start] at h
  known a h := by cases h
  sent a h := by cases h

/-- The interest is bound and sent in exactly one message: the message is the only
one that names the area of interest and the read capability, and its position is
the handle of the area of interest. -/
def AnnouncedOnce (f : IntersectionFinder) (a : ReadAuthorisation) (x : AreaOfInterest) : Prop :=
  ∃ i h, (messages f.outputs)[i]? = some (x, h) ∧ BoundAt f a h ∧
    f.handles.ourHandles.tryGet i = some ⟨x, a.namespaceId⟩ ∧
    ∀ j h', (messages f.outputs)[j]? = some (x, h') → BoundAt f a h' → j = i

omit [WillowDataModel] in
theorem Once.announcedOnce (h : Once f intersected) {a : ReadAuthorisation} (ha : a ∈ intersected)
    {aois : List AreaOfInterest} (haois : f.interests a = some aois) {x : AreaOfInterest}
    (hx : x ∈ aois) : AnnouncedOnce f a x := by
  obtain ⟨k, hbound, hsent⟩ := h.sent a ha
  obtain ⟨i, hi, hget⟩ := List.mem_iff_getElem.mp (hsent aois haois x hx)
  have hget? : (messages f.outputs)[i]? = some (x, k) := by rw [List.getElem?_eq_getElem hi, hget]
  refine ⟨i, k, hget?, hbound, ?_, fun j k' hj hk' => ?_⟩
  · obtain ⟨infos, hmirrors, hforall⟩ := h.wellBound.bound
    have hi' : i < infos.length := hforall.length_eq ▸ hi
    obtain ⟨haoi, cap, hcap, hns⟩ := (List.forall₂_iff_get.mp hforall).2 i hi hi'
    simp only [List.get_eq_getElem, hget] at haoi hcap hns
    obtain rfl : a.readCap = cap := Option.some.inj (hbound.symm.trans hcap)
    rw [hmirrors.tryGet, List.getElem?_eq_getElem hi', ← haoi]
    show some infos[i] = some ⟨infos[i].aoi, a.readCap.grantedNamespace⟩
    rw [← hns]
  · rw [h.wellBound.eq_of_boundAt hk' hbound] at hj
    exact ((List.getElem?_inj hi h.nodup).mp (hget?.trans hj.symm)).symm

/-- **Each interest is announced exactly once**, for every sequence of inputs that
meets the condition: the pairs of the interest map whose authorisation has had a
private area intersection are bound and sent in exactly one message. -/
theorem announced_exactly_once (ourNonce : AccessChallenge) (receivedCommitment : Bytes 32)
    (s : Announcer)
    (hs : Transition.Reachable step (fun s input => IsInterestMap input ∧ NotYetSent s input)
      (start ourNonce receivedCommitment) s)
    (a : ReadAuthorisation) (ha : a ∈ s.intersected) (aois : List AreaOfInterest)
    (haois : s.finder.interests a = some aois) (x : AreaOfInterest) (hx : x ∈ aois) :
    AnnouncedOnce s.finder a x := by
  have honce : Once s.finder s.intersected :=
    hs.invariant (P := fun s => Once s.finder s.intersected)
      (once_start ourNonce receivedCommitment) fun _ _ _ h hallowed hstep =>
        h.step hallowed.1 hallowed.2 hstep
  exact honce.announcedOnce ha haois hx

end Announcer

/-! ### One authorisation, two intersections -/

namespace Announcer

open IrohWillow.Sample IntersectionFinder

/-- No areas intersect. -/
@[reducible] def Sample.disjointAreas : WillowDataModel where
  greaterButNotPrefixed _ := none
  intersection _ _ := none

attribute [local instance] Sample.disjointAreas

def Sample.authorisation : ReadAuthorisation := ⟨{ writeCapability with accessMode := .read }, none⟩

def Sample.areaOfInterest : AreaOfInterest := ⟨.full, 0, 0⟩

/-- An interest, and an intersection for each of the handles. -/
def Sample.intersections (handles : List Nat) : List Input :=
  .addInterests [(Sample.authorisation, [Sample.areaOfInterest])] ::
    handles.map (.paiIntersection Sample.authorisation)

instance : (input : Input) → Decidable (IsInterestMap input)
  | .addInterests interests => decidable_of_iff
      ((interests.map (·.1)).Nodup ∧ ∀ e ∈ interests, e.2.Nodup) (by simp [IsInterestMap])
  | .paiIntersection _ _ => isTrue trivial
  | .receivedValidatedAoi _ _ => isTrue trivial

/-- The second intersection announces the interest again. -/
theorem second_intersection_announces_again :
    ¬ ∀ s, Transition.Reachable step (fun _ input => IsInterestMap input)
        (start (.ofByte 3) (.ofByte 7)) s →
      ∀ a ∈ s.intersected, ∀ aois, s.finder.interests a = some aois → ∀ x ∈ aois,
        AnnouncedOnce s.finder a x := by
  intro h
  have hrun : ((Transition.run step (start (.ofByte 3) (.ofByte 7))
      (Sample.intersections [0, 1])).map fun s => (s.intersected,
        s.finder.interests Sample.authorisation, messages s.finder.outputs,
        s.finder.caps.ours.tryGet 0)) =
      some ([Sample.authorisation, Sample.authorisation], some [Sample.areaOfInterest],
        [(Sample.areaOfInterest, 0), (Sample.areaOfInterest, 0)],
        some Sample.authorisation.readCap) := by rfl
  obtain ⟨s, hs, heq⟩ := Option.map_eq_some_iff.mp hrun
  simp only [Prod.mk.injEq] at heq
  obtain ⟨hintersected, hinterests, hmessages, hbound⟩ := heq
  obtain ⟨i, k, -, -, -, honly⟩ := h s (.of_run hs (by decide)) Sample.authorisation
    (by simp [hintersected]) _ hinterests Sample.areaOfInterest (by simp)
  have h0 := honly 0 0 (by simp [hmessages]) hbound
  have h1 := honly 1 0 (by simp [hmessages]) hbound
  omega

/-- After one intersection the interest is announced once. -/
theorem announced_exactly_once_one_intersection :
    ∃ s, Transition.Reachable step (fun s input => IsInterestMap input ∧ NotYetSent s input)
        (start (.ofByte 3) (.ofByte 7)) s ∧ Sample.authorisation ∈ s.intersected ∧
      AnnouncedOnce s.finder Sample.authorisation Sample.areaOfInterest := by
  have hrun : ((Transition.run step (start (.ofByte 3) (.ofByte 7))
      (Sample.intersections [0])).map fun s => (s.intersected,
        s.finder.interests Sample.authorisation)) =
      some ([Sample.authorisation], some [Sample.areaOfInterest]) := by rfl
  obtain ⟨s, hs, heq⟩ := Option.map_eq_some_iff.mp hrun
  obtain ⟨hintersected, hinterests⟩ := Prod.mk.inj heq
  have hmem : Sample.authorisation ∈ s.intersected := by simp [hintersected]
  have hreach : Transition.Reachable step
      (fun s input => IsInterestMap input ∧ NotYetSent s input)
      (start (.ofByte 3) (.ofByte 7)) s := by
    refine .of_run hs ⟨⟨by decide, ⟨?_, by simp⟩⟩, ⟨⟨trivial, ?_⟩, trivial⟩⟩
    · intro e _ existing h hknown
      simp [start] at hknown
    · intro aois h _ hbound
      have hnone : (start (.ofByte 3) (.ofByte 7)).finder.caps.ours.tryGet h = none := by
        simp [start, Capabilities.new, ResourceMap.tryGet]
      exact absurd (hnone.symm.trans hbound) (by simp)
  exact ⟨s, hreach, hmem, announced_exactly_once _ _ s hreach _ hmem _ hinterests _ (by simp)⟩

end Announcer

end IrohWillow
