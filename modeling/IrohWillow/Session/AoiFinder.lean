import IrohWillow.Session.Capabilities

/-!
# Finding intersections of areas of interest

`IntersectionFinder` of `session/aoi_finder.rs`. It binds our areas of
interest, once the private area intersection has found something in common,
and the areas of interest of the peer, after they were validated against a
capability. Whenever one is bound, its intersections with the areas of the
other side in the same namespace are put out.
-/

namespace IrohWillow

/-- `ReadAuthorisation`. -/
structure ReadAuthorisation where
  readCap : ReadCapability
  subspaceCap : Option SubspaceCapability
  deriving DecidableEq

/-- `ReadAuthorisation::namespace`. -/
def ReadAuthorisation.namespaceId (a : ReadAuthorisation) : NamespaceId :=
  a.readCap.grantedNamespace

/-- `Scope`. -/
inductive Scope where
  | ours
  | theirs
  deriving DecidableEq, Repr

/-- `AoiInfo`. -/
structure AoiInfo where
  aoi : AreaOfInterest
  namespaceId : NamespaceId
  deriving DecidableEq

/-- `AoiResources`. -/
structure AoiResources where
  ourHandles : ResourceMap AoiInfo := {}
  theirHandles : ResourceMap AoiInfo := {}

namespace AoiResources

variable [WillowDataModel]

/-- The intersections of a newly bound area of interest with those of the
other side. -/
def intersections (scope : Scope) (boundHandle : Nat) (info : AoiInfo)
    (others : ResourceMap AoiInfo) : List AoiIntersection :=
  others.map.entries.filterMap fun other =>
    if other.2.namespaceId ≠ info.namespaceId then none
    else
      (WillowDataModel.intersection other.2.aoi info.aoi).map fun intersection =>
        match scope with
        | .ours => ⟨boundHandle, other.1, intersection, info.namespaceId⟩
        | .theirs => ⟨other.1, boundHandle, intersection, info.namespaceId⟩

/-- `AoiResources::bind_validated`, with the intersections it puts out. -/
def bindValidated (r : AoiResources) (scope : Scope) (namespaceId : NamespaceId)
    (aoi : AreaOfInterest) : List AoiIntersection × AoiResources :=
  let info : AoiInfo := ⟨aoi, namespaceId⟩
  match scope with
  | .ours =>
      let (boundHandle, ourHandles) := r.ourHandles.bind info
      (intersections .ours boundHandle info r.theirHandles, { r with ourHandles := ourHandles })
  | .theirs =>
      let (boundHandle, theirHandles) := r.theirHandles.bind info
      (intersections .theirs boundHandle info r.ourHandles, { r with theirHandles := theirHandles })

end AoiResources

namespace IntersectionFinder

/-- `Input`. -/
inductive Input where
  | addInterests (interests : List (ReadAuthorisation × List AreaOfInterest))
  | paiIntersection (authorisation : ReadAuthorisation) (handle : Nat)
  | receivedValidatedAoi (namespaceId : NamespaceId) (aoi : AreaOfInterest)
  deriving DecidableEq

/-- `Output`. -/
inductive Output where
  | sendMessage (areaOfInterest : AreaOfInterest) (authorisation : Nat)
  | submitAuthorisation (authorisation : ReadAuthorisation)
  | aoiIntersection (intersection : AoiIntersection)
  | signAndSendCapability (handle : Nat) (capability : ReadCapability)
  deriving DecidableEq

end IntersectionFinder

/-- `IntersectionFinder`, with the capabilities it shares with the session and
what it has put out. -/
structure IntersectionFinder where
  caps : Capabilities
  handles : AoiResources := {}
  interests : ReadAuthorisation → Option (List AreaOfInterest) := fun _ => none
  outputs : List IntersectionFinder.Output := []

namespace IntersectionFinder

variable [WillowDataModel]

/-- `co.yield_`. -/
def yield (f : IntersectionFinder) (outputs : List Output) : IntersectionFinder :=
  { f with outputs := f.outputs ++ outputs }

/-- `AoiResources::bind_validated` on the finder. -/
def bindValidated (f : IntersectionFinder) (scope : Scope) (namespaceId : NamespaceId)
    (aoi : AreaOfInterest) : IntersectionFinder :=
  let (found, handles) := f.handles.bindValidated scope namespaceId aoi
  ({ f with handles := handles }).yield (found.map .aoiIntersection)

/-- `AoiResources::bind_and_send_ours` on the finder. -/
def bindAndSendOurs (f : IntersectionFinder) (namespaceId : NamespaceId) (authorisation : Nat)
    (aoi : AreaOfInterest) : IntersectionFinder :=
  (f.bindValidated .ours namespaceId aoi).yield [.sendMessage aoi authorisation]

/-- `IntersectionFinder::add_interests` for one area of interest of an
authorisation that is known already. -/
def addKnown (authorisation : ReadAuthorisation) (f : IntersectionFinder) (aoi : AreaOfInterest) :
    IntersectionFinder :=
  let existing := (f.interests authorisation).getD []
  if aoi ∈ existing then f
  else
    let interests := Function.update f.interests authorisation (some (existing ++ [aoi]))
    let f := { f with interests := interests }
    match f.caps.findOurs authorisation.readCap with
    | none => f
    | some capabilityHandle => f.bindAndSendOurs authorisation.namespaceId capabilityHandle aoi

/-- `IntersectionFinder::add_interests`. -/
def addInterests (f : IntersectionFinder)
    (interests : List (ReadAuthorisation × List AreaOfInterest)) : IntersectionFinder :=
  interests.foldl (fun f (authorisation, aois) =>
    match f.interests authorisation with
    | some _ => aois.foldl (addKnown authorisation) f
    | none =>
        ({ f with interests := Function.update f.interests authorisation (some aois) }).yield
          [.submitAuthorisation authorisation]) f

/-- The first part of `IntersectionFinder::on_pai_intersection`: bind the
capability, and send it when it is new. -/
def bindCapability (f : IntersectionFinder) (authorisation : ReadAuthorisation) (handle : Nat) :
    Nat × IntersectionFinder :=
  match f.caps.bindOurs authorisation.readCap with
  | ((capabilityHandle, true), caps) =>
      (capabilityHandle, ({ f with caps := caps }).yield
        [.signAndSendCapability handle authorisation.readCap])
  | ((capabilityHandle, false), caps) => (capabilityHandle, { f with caps := caps })

/-- `IntersectionFinder::on_pai_intersection`. -/
def onPaiIntersection (f : IntersectionFinder) (authorisation : ReadAuthorisation)
    (handle : Nat) : Except Error IntersectionFinder :=
  match f.interests authorisation with
  | none => .error .noKnownInterestsForCapability
  | some aois =>
      let (capabilityHandle, f) := f.bindCapability authorisation handle
      .ok (aois.foldl (fun f aoi =>
        f.bindAndSendOurs authorisation.namespaceId capabilityHandle aoi) f)

/-- One iteration of `IntersectionFinder::run`. -/
def onInput (f : IntersectionFinder) : Input → Except Error IntersectionFinder
  | .addInterests interests => .ok (f.addInterests interests)
  | .paiIntersection authorisation handle => f.onPaiIntersection authorisation handle
  | .receivedValidatedAoi namespaceId aoi => .ok (f.bindValidated .theirs namespaceId aoi)

end IntersectionFinder

/-! ## What is put out -/

namespace AoiResources

variable [WillowDataModel] {r : AoiResources} {scope : Scope} {ns : NamespaceId}
  {aoi : AreaOfInterest}

/-- An intersection put out lies inside the newly bound area and inside a bound
area of the other side, in the same namespace. -/
theorem mem_intersections (hspec : IntersectionSpec) {boundHandle : Nat} {info : AoiInfo}
    {others : ResourceMap AoiInfo} {i : AoiIntersection}
    (hi : i ∈ intersections scope boundHandle info others) :
    i.namespaceId = info.namespaceId ∧ info.aoi.area.IncludesArea i.area ∧
      ∃ h other, others.tryGet h = some other ∧ other.namespaceId = info.namespaceId ∧
        other.aoi.area.IncludesArea i.area := by
  obtain ⟨⟨h, other⟩, hmem, hsome⟩ := List.mem_filterMap.mp hi
  split at hsome
  · cases hsome
  · rename_i hns
    obtain ⟨c, hc, rfl⟩ := Option.map_eq_some_iff.mp hsome
    obtain ⟨h1, h2⟩ := hspec _ _ _ hc
    have hget : others.tryGet h = some other := AList.mem_lookup_iff.mpr hmem
    cases scope with
    | ours => exact ⟨rfl, h2, h, other, hget, not_not.mp hns, h1⟩
    | theirs => exact ⟨rfl, h2, h, other, hget, not_not.mp hns, h1⟩

/-- Every intersection put out lies inside an area of interest that is then
bound for the peer, in its namespace. -/
theorem mem_bindValidated (hspec : IntersectionSpec) {i : AoiIntersection}
    (hi : i ∈ (r.bindValidated scope ns aoi).1) :
    ∃ h info, (r.bindValidated scope ns aoi).2.theirHandles.tryGet h = some info ∧
      info.namespaceId = i.namespaceId ∧ info.aoi.area.IncludesArea i.area := by
  cases scope with
  | ours =>
      have hi' : i ∈ intersections .ours r.ourHandles.nextHandle ⟨aoi, ns⟩ r.theirHandles := hi
      obtain ⟨hns, -, h, other, hget, hother, harea⟩ := mem_intersections hspec hi'
      exact ⟨h, other, hget, hother.trans hns.symm, harea⟩
  | theirs =>
      have hi' : i ∈ intersections .theirs r.theirHandles.nextHandle ⟨aoi, ns⟩ r.ourHandles := hi
      obtain ⟨hns, harea, -⟩ := mem_intersections hspec hi'
      exact ⟨r.theirHandles.nextHandle, ⟨aoi, ns⟩, ResourceMap.tryGet_bind_self, hns.symm, harea⟩

end AoiResources

/-! ## What the finder preserves -/

namespace IntersectionFinder

/-- Everything the finder knows of the peer satisfies `P`: the areas bound for
the peer, and the intersections put out. -/
structure Confined (P : NamespaceId → Area → Prop) (f : IntersectionFinder) : Prop where
  dense : f.handles.theirHandles.Dense
  bound : ∀ h info, f.handles.theirHandles.tryGet h = some info →
    P info.namespaceId info.aoi.area
  found : ∀ i, .aoiIntersection i ∈ f.outputs → P i.namespaceId i.area

/-- `f'` has the capabilities of the peer and the challenge of `f`. -/
def SameTheirs (f f' : IntersectionFinder) : Prop :=
  f'.caps.theirs = f.caps.theirs ∧ f'.caps.challenge = f.caps.challenge

/-- `P` passes to smaller areas. -/
def Downward (P : NamespaceId → Area → Prop) : Prop :=
  ∀ ns a b, P ns a → a.IncludesArea b → P ns b

variable {P : NamespaceId → Area → Prop} {f f' : IntersectionFinder}

/-- Only the handles and the outputs matter. -/
theorem Confined.congr (h : f.Confined P) (hhandles : f'.handles = f.handles)
    (houtputs : f'.outputs = f.outputs) : f'.Confined P :=
  ⟨hhandles ▸ h.dense, hhandles ▸ h.bound, houtputs ▸ h.found⟩

theorem Confined.mono {P' : NamespaceId → Area → Prop} (h : f.Confined P)
    (hle : ∀ ns a, P ns a → P' ns a) : f.Confined P' :=
  ⟨h.dense, fun k info hk => hle _ _ (h.bound k info hk), fun i hi => hle _ _ (h.found i hi)⟩

theorem Confined.yield (h : f.Confined P) {outputs : List Output}
    (hout : ∀ i, .aoiIntersection i ∈ outputs → P i.namespaceId i.area) :
    (f.yield outputs).Confined P :=
  ⟨h.dense, h.bound, fun i hi => (List.mem_append.mp hi).elim (h.found i) (hout i)⟩

theorem SameTheirs.trans {f'' : IntersectionFinder} (h : SameTheirs f f') (h' : SameTheirs f' f'') :
    SameTheirs f f'' := ⟨h'.1.trans h.1, h'.2.trans h.2⟩

theorem Confined.bindCapability (h : f.Confined P) (authorisation : ReadAuthorisation)
    (handle : Nat) : (f.bindCapability authorisation handle).2.Confined P ∧
      SameTheirs f (f.bindCapability authorisation handle).2 := by
  have hcaps : ∀ caps, Confined P { f with caps := caps } := fun caps => h.congr rfl rfl
  have hsame : (f.caps.bindOurs authorisation.readCap).2.theirs = f.caps.theirs ∧
      (f.caps.bindOurs authorisation.readCap).2.challenge = f.caps.challenge := ⟨rfl, rfl⟩
  unfold IntersectionFinder.bindCapability
  split
  · rename_i heq
    rw [heq] at hsame
    exact ⟨(hcaps _).yield (by simp), hsame⟩
  · rename_i heq
    rw [heq] at hsame
    exact ⟨hcaps _, hsame⟩

/-- What each step of a loop preserves, the loop preserves. -/
theorem Confined.foldl {β : Type} {step : IntersectionFinder → β → IntersectionFinder}
    (hstep : ∀ f b, f.Confined P → (step f b).Confined P ∧ SameTheirs f (step f b))
    (l : List β) (h : f.Confined P) :
    (l.foldl step f).Confined P ∧ SameTheirs f (l.foldl step f) := by
  induction l generalizing f with
  | nil => exact ⟨h, rfl, rfl⟩
  | cons b l ih =>
      obtain ⟨hb, hs⟩ := hstep f b h
      obtain ⟨hl, hs'⟩ := ih hb
      exact ⟨hl, hs.trans hs'⟩

variable [WillowDataModel]

/-- Binding an area of interest: ours always, theirs when `P` holds of it. -/
theorem Confined.bindValidated (hspec : IntersectionSpec) (hP : Downward P) (h : f.Confined P)
    {scope : Scope} {ns : NamespaceId} {aoi : AreaOfInterest}
    (hnew : scope = .theirs → P ns aoi.area) :
    (f.bindValidated scope ns aoi).Confined P ∧ SameTheirs f (f.bindValidated scope ns aoi) := by
  have hbound : ∀ k info, (f.handles.bindValidated scope ns aoi).2.theirHandles.tryGet k =
      some info → P info.namespaceId info.aoi.area := by
    intro k info hk
    cases scope with
    | ours => exact h.bound k info hk
    | theirs =>
        by_cases heq : k = f.handles.theirHandles.nextHandle
        · subst heq
          have hk' : some (AoiInfo.mk aoi ns) = some info :=
            ResourceMap.tryGet_bind_self.symm.trans hk
          obtain rfl := Option.some.inj hk'
          exact hnew rfl
        · exact h.bound k info ((ResourceMap.tryGet_bind_of_ne heq).symm.trans hk)
  have hdense : (f.handles.bindValidated scope ns aoi).2.theirHandles.Dense := by
    cases scope with
    | ours => exact h.dense
    | theirs => exact h.dense.bind
  refine ⟨⟨hdense, hbound, fun i hi => ?_⟩, rfl, rfl⟩
  rcases List.mem_append.mp hi with hi | hi
  · exact h.found i hi
  · obtain ⟨j, hj, hji⟩ := List.mem_map.mp hi
    obtain rfl := Output.aoiIntersection.inj hji
    obtain ⟨k, info, hk, hns, harea⟩ := AoiResources.mem_bindValidated hspec hj
    exact hns ▸ hP _ _ _ (hbound k info hk) harea

theorem Confined.bindAndSendOurs (hspec : IntersectionSpec) (hP : Downward P) (h : f.Confined P)
    (ns : NamespaceId) (authorisation : Nat) (aoi : AreaOfInterest) :
    (f.bindAndSendOurs ns authorisation aoi).Confined P ∧
      SameTheirs f (f.bindAndSendOurs ns authorisation aoi) := by
  have hours : Scope.ours = .theirs → P ns aoi.area := by
    intro h
    cases h
  obtain ⟨hc, hs⟩ := h.bindValidated hspec hP hours
  exact ⟨hc.yield (by simp), hs⟩

theorem Confined.addKnown (hspec : IntersectionSpec) (hP : Downward P) (h : f.Confined P)
    (authorisation : ReadAuthorisation) (aoi : AreaOfInterest) :
    (addKnown authorisation f aoi).Confined P ∧
      SameTheirs f (addKnown authorisation f aoi) := by
  simp only [IntersectionFinder.addKnown]
  split
  · exact ⟨h, rfl, rfl⟩
  · split
    · exact ⟨h.congr rfl rfl, rfl, rfl⟩
    · refine Confined.bindAndSendOurs (f := { f with interests := _ }) hspec hP ?_ _ _ _
      exact h.congr rfl rfl

theorem Confined.addInterests (hspec : IntersectionSpec) (hP : Downward P) (h : f.Confined P)
    (interests : List (ReadAuthorisation × List AreaOfInterest)) :
    (f.addInterests interests).Confined P ∧ SameTheirs f (f.addInterests interests) := by
  refine Confined.foldl (fun f x hf => ?_) interests h
  obtain ⟨authorisation, aois⟩ := x
  dsimp only
  split
  · exact Confined.foldl (fun f aoi hf => hf.addKnown hspec hP authorisation aoi) aois hf
  · have hadd : Confined P { f with
        interests := Function.update f.interests authorisation (some aois) } := hf.congr rfl rfl
    exact ⟨hadd.yield (by simp), rfl, rfl⟩

theorem Confined.onPaiIntersection (hspec : IntersectionSpec) (hP : Downward P)
    (h : f.Confined P) {authorisation : ReadAuthorisation} {handle : Nat}
    (hok : f.onPaiIntersection authorisation handle = .ok f') :
    f'.Confined P ∧ SameTheirs f f' := by
  unfold IntersectionFinder.onPaiIntersection at hok
  split at hok
  · cases hok
  · rename_i aois _
    obtain rfl := Except.ok.inj hok
    obtain ⟨hc, hs⟩ := h.bindCapability authorisation handle
    obtain ⟨hfold, hs'⟩ := Confined.foldl (P := P)
      (fun f aoi hf => hf.bindAndSendOurs hspec hP authorisation.namespaceId
        (IntersectionFinder.bindCapability _ authorisation handle).1 aoi) aois hc
    exact ⟨hfold, hs.trans hs'⟩

/-- **One input.** The finder stays confined when a validated area of interest
of the peer satisfies `P`. -/
theorem Confined.onInput (hspec : IntersectionSpec) (hP : Downward P) (h : f.Confined P)
    {input : Input} (hnew : ∀ ns aoi, input = .receivedValidatedAoi ns aoi → P ns aoi.area)
    (hok : f.onInput input = .ok f') : f'.Confined P ∧ SameTheirs f f' := by
  cases input with
  | addInterests interests =>
      obtain rfl := Except.ok.inj hok
      exact h.addInterests hspec hP interests
  | paiIntersection authorisation handle => exact h.onPaiIntersection hspec hP hok
  | receivedValidatedAoi ns aoi =>
      obtain rfl := Except.ok.inj hok
      exact h.bindValidated hspec hP fun _ => hnew ns aoi rfl

end IntersectionFinder

end IrohWillow
