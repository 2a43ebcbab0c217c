import IrohWillow.Lib.Transition
import IrohWillow.Session.Resource

/-!
# Runs of a resource map

Any sequence of calls on one `ResourceMap`. `find` and `bind_if_new` search the
hash map by value, in the order in which it happens to iterate: `findIn` and
`bindIfNewIn` take that order, and any order will do.

The run keeps, beside the map, the resources by their handles and which polls
were left pending and woken. `Tidy` is the invariant; `resource_maps_orderly`
says what a caller may rely on.

The counter `next_handle` is a natural number here: to overflow, the map would
have to hold `2 ^ 64` resources.
-/

namespace IrohWillow

namespace ResourceMap

variable {R : Type}

/-- The hash map iterates over the bound handles. -/
def Enumerates (m : ResourceMap R) (order : List Nat) : Prop :=
  ∀ h, h ∈ order ↔ (m.tryGet h).isSome = true

variable [DecidableEq R]

/-- `ResourceMap::find`, with the handles in the order of the hash map. -/
def findIn (m : ResourceMap R) (order : List Nat) (resource : R) : Option Nat :=
  ((m.iter order).find? fun kv => decide (kv.2 = resource)).map Prod.fst

/-- `ResourceMap::bind_if_new`, with the handles in the order of the hash map. -/
def bindIfNewIn (m : ResourceMap R) (order : List Nat) (resource : R) :
    (Nat × Bool) × ResourceMap R :=
  match m.findIn order resource with
  | some handle => ((handle, false), m)
  | none =>
      let (handle, m') := m.bind resource
      ((handle, true), m')

variable {m : ResourceMap R} {order : List Nat} {resource : R}

theorem tryGet_of_findIn {h : Nat} (hf : m.findIn order resource = some h) :
    m.tryGet h = some resource := by
  obtain ⟨⟨k, r⟩, hfind, rfl⟩ := Option.map_eq_some_iff.mp hf
  obtain rfl : r = resource := by simpa using List.find?_some hfind
  obtain ⟨k', -, hk'⟩ := List.mem_filterMap.mp (List.mem_of_find?_eq_some hfind)
  obtain ⟨r', hr', heq⟩ := Option.map_eq_some_iff.mp hk'
  obtain ⟨rfl, rfl⟩ := Prod.mk.inj heq
  exact hr'

theorem findIn_ne_none (horder : m.Enumerates order) {h : Nat} (hh : m.tryGet h = some resource) :
    m.findIn order resource ≠ none := by
  have hmem : (h, resource) ∈ m.iter order := by
    refine List.mem_filterMap.mpr ⟨h, (horder h).mpr (by simp [hh]), ?_⟩
    rw [hh]
    rfl
  intro hnone
  have hnot := List.find?_eq_none.mp (Option.map_eq_none_iff.mp hnone) _ hmem
  simp at hnot

/-- When every resource is bound once, each order finds it. -/
theorem findIn_eq_some_iff (horder : m.Enumerates order)
    (hinj : ∀ h h' r, m.tryGet h = some r → m.tryGet h' = some r → h = h') (h : Nat) :
    m.findIn order resource = some h ↔ m.tryGet h = some resource := by
  constructor
  · exact tryGet_of_findIn
  · intro hh
    cases hf : m.findIn order resource with
    | none => exact absurd hf (findIn_ne_none horder hh)
    | some h' => rw [hinj h' h resource (tryGet_of_findIn hf) hh]

theorem findIn_eq_none_iff (horder : m.Enumerates order) :
    m.findIn order resource = none ↔ ∀ h, m.tryGet h ≠ some resource := by
  constructor
  · intro hnone h hh
    exact findIn_ne_none horder hh hnone
  · intro hnot
    cases hf : m.findIn order resource with
    | none => rfl
    | some h => exact absurd (tryGet_of_findIn hf) (hnot h)

end ResourceMap

/-! ## Runs -/

/-- A call. -/
inductive ResourceCall (R : Type) where
  | bindIfNew (order : List Nat) (resource : R)
  | find (order : List Nat) (resource : R)
  | tryGet (handle : Nat)
  | update (handle : Nat) (resource : R)
  | pollGetEventually (handle : Nat) (waker : Waker)

/-- A resource map, the resources by their handles, and the polls that were left
pending and the wakers that were woken, each with its handle. -/
structure ResourceRun (R : Type) where
  map : ResourceMap R := {}
  values : List R := []
  parked : List (Nat × Waker) := []
  woken : List (Nat × Waker) := []

namespace ResourceRun

variable {R : Type}

/-- One call. -/
def step [DecidableEq R] (s : ResourceRun R) : ResourceCall R → Option (ResourceRun R)
  | .bindIfNew order resource =>
      match s.map.bindIfNewIn order resource with
      | ((_, false), m) => some { s with map := m }
      | ((handle, true), m) =>
          some { s with
            map := m
            values := s.values ++ [resource]
            woken := s.woken ++ (s.map.wakers handle).map fun waker => (handle, waker) }
  | .find _ _ => some s
  | .tryGet _ => some s
  | .update handle resource =>
      match s.map.update handle resource with
      | none => some s
      | some m => some { s with map := m, values := s.values.set handle resource }
  | .pollGetEventually handle waker =>
      match s.map.pollGetEventually handle waker with
      | (.ready _, m) => some { s with map := m }
      | (.pending, m) => some { s with map := m, parked := s.parked ++ [(handle, waker)] }

/-- The hash map is searched in an order of its handles, and no update makes a
resource equal to another one that is bound. -/
def Allowed (s : ResourceRun R) : ResourceCall R → Prop
  | .bindIfNew order _ => s.map.Enumerates order
  | .find order _ => s.map.Enumerates order
  | .update handle resource => (s.map.tryGet handle).isSome = true →
      ∀ h, s.map.tryGet h = some resource → h = handle
  | .tryGet _ => True
  | .pollGetEventually _ _ => True

/-- The invariant of a run. A poll of a handle is either still parked in the map
or was woken, and nothing is parked for a bound handle. -/
structure Tidy (s : ResourceRun R) : Prop where
  mirrors : s.map.Mirrors s.values
  nodup : s.values.Nodup
  count_parked : ∀ h waker,
    s.parked.count (h, waker) = s.woken.count (h, waker) + (s.map.wakers h).count waker
  wakers_bound : ∀ h, h < s.values.length → s.map.wakers h = []
  woken_bound : ∀ h waker, (h, waker) ∈ s.woken → h < s.values.length

theorem tidy_start : ({} : ResourceRun R).Tidy where
  mirrors := ResourceMap.mirrors_empty
  nodup := List.nodup_nil
  count_parked := fun _ _ => rfl
  wakers_bound := fun _ _ => rfl
  woken_bound := fun _ _ h => by simp at h

variable {s : ResourceRun R}

theorem Tidy.isSome_iff (hs : s.Tidy) (h : Nat) :
    (s.map.tryGet h).isSome = true ↔ h < s.values.length := by
  rw [hs.mirrors.tryGet]
  simp

/-- Distinct handles have distinct resources. -/
theorem Tidy.inj (hs : s.Tidy) (h h' : Nat) (r : R) (hr : s.map.tryGet h = some r)
    (hr' : s.map.tryGet h' = some r) : h = h' := by
  rw [hs.mirrors.tryGet] at hr hr'
  have hlt := (List.getElem?_eq_some_iff.mp hr).1
  exact (List.getElem?_inj hlt hs.nodup).mp (hr.trans hr'.symm)

/-- Binding a new resource wakes what waits for its handle. -/
theorem Tidy.bind (hs : s.Tidy) {resource : R} (hnew : ∀ h, s.map.tryGet h ≠ some resource) :
    ({ s with
      map := (s.map.bind resource).2
      values := s.values ++ [resource]
      woken := s.woken ++ (s.map.wakers s.map.nextHandle).map fun waker =>
        (s.map.nextHandle, waker) } : ResourceRun R).Tidy := by
  have hnext : s.map.nextHandle = s.values.length := hs.mirrors.nextHandle
  have hnotmem : resource ∉ s.values := by
    intro hmem
    obtain ⟨h, hh⟩ := List.mem_iff_getElem?.mp hmem
    exact hnew h ((hs.mirrors.tryGet h).trans hh)
  have hunwoken (waker : Waker) : s.woken.count (s.map.nextHandle, waker) = 0 :=
    List.count_eq_zero.mpr fun hmem => by
      have hlt := hs.woken_bound _ _ hmem
      omega
  refine
    { mirrors := hs.mirrors.bind
      nodup := by
        rw [List.nodup_append]
        refine ⟨hs.nodup, List.nodup_singleton _, fun a ha b hb => ?_⟩
        rintro rfl
        exact hnotmem (List.mem_singleton.mp hb ▸ ha)
      count_parked := fun h waker => ?_
      wakers_bound := fun h hlt => ?_
      woken_bound := fun h waker hmem => ?_ }
  · rw [hs.count_parked, List.count_append]
    by_cases hh : h = s.map.nextHandle
    · -- the wakers of the new handle are taken out of the map
      subst hh
      have hinj : Function.Injective fun waker : Waker => (s.map.nextHandle, waker) :=
        fun _ _ heq => (Prod.mk.inj heq).2
      have hmoved := List.count_map_of_injective (s.map.wakers s.map.nextHandle) _ hinj waker
      simp only [ResourceMap.bind, Function.update_self, List.count_nil, hmoved, hunwoken]
      omega
    · have hother : ((s.map.wakers s.map.nextHandle).map fun waker =>
          (s.map.nextHandle, waker)).count (h, waker) = 0 := by
        refine List.count_eq_zero.mpr fun hmem => ?_
        obtain ⟨_, -, heq⟩ := List.mem_map.mp hmem
        exact hh (Prod.mk.inj heq).1.symm
      simp only [ResourceMap.bind, Function.update_of_ne hh, hother, Nat.add_zero]
  · show Function.update s.map.wakers s.map.nextHandle [] h = []
    by_cases hh : h = s.map.nextHandle
    · rw [hh, Function.update_self]
    · rw [Function.update_of_ne hh]
      refine hs.wakers_bound h ?_
      rw [List.length_append, List.length_singleton] at hlt
      omega
  · rw [List.length_append, List.length_singleton]
    rcases List.mem_append.mp hmem with hold | hnew
    · exact (hs.woken_bound h waker hold).trans (Nat.lt_succ_self _)
    · obtain ⟨_, -, heq⟩ := List.mem_map.mp hnew
      rw [← (Prod.mk.inj heq).1, hnext]
      exact Nat.lt_succ_self _

/-- Updating a resource moves no waker. -/
theorem Tidy.update (hs : s.Tidy) {handle : Nat} {resource : R} (hlt : handle < s.values.length)
    (hallowed : ∀ h, s.map.tryGet h = some resource → h = handle) {m : ResourceMap R}
    (hm : s.map.update handle resource = some m) :
    ({ s with map := m, values := s.values.set handle resource } : ResourceRun R).Tidy := by
  have hupdated : ∃ m', s.map.update handle resource = some m' ∧
      m'.Mirrors (s.values.set handle resource) := hs.mirrors.update hlt
  obtain ⟨m', hm', hmirrors⟩ := hupdated
  obtain rfl : m' = m := Option.some.inj (hm'.symm.trans hm)
  have hwakers : m'.wakers = s.map.wakers := by
    unfold ResourceMap.update at hm
    split at hm
    · cases hm
    · rw [← Option.some.inj hm]
  refine
    { mirrors := hmirrors
      nodup := ?_
      count_parked := fun h waker => by rw [hwakers]; exact hs.count_parked h waker
      wakers_bound := fun h hh => by
        rw [hwakers]
        exact hs.wakers_bound h (by simpa using hh)
      woken_bound := fun h waker hmem => by simpa using hs.woken_bound h waker hmem }
  rw [List.nodup_iff_getElem?_ne_getElem?]
  intro i j hij hj heq
  have hj' : j < s.values.length := by simpa using hj
  -- only the updated place has the resource
  have hplace (k : Nat) (hk : s.values[k]? = some resource) : k = handle :=
    hallowed k ((hs.mirrors.tryGet k).trans hk)
  rw [List.getElem?_set, List.getElem?_set] at heq
  by_cases hi : handle = i
  · rw [if_pos hi, if_pos (hi ▸ hlt), if_neg (by omega)] at heq
    have := hplace j heq.symm
    omega
  · rw [if_neg hi] at heq
    by_cases hjh : handle = j
    · rw [if_pos hjh, if_pos (hjh ▸ hlt)] at heq
      exact hi (hplace i heq).symm
    · rw [if_neg hjh] at heq
      exact List.nodup_iff_getElem?_ne_getElem?.mp hs.nodup i j hij hj' heq

/-- A pending poll is parked under a handle that is not bound. -/
theorem Tidy.park (hs : s.Tidy) {handle : Nat} (hnone : s.map.tryGet handle = none)
    (waker : Waker) :
    ({ s with
      map := { s.map with
        wakers := Function.update s.map.wakers handle (s.map.wakers handle ++ [waker]) }
      parked := s.parked ++ [(handle, waker)] } : ResourceRun R).Tidy := by
  have hunbound : ¬ handle < s.values.length := fun hlt => by
    have hsome := (hs.isSome_iff handle).mpr hlt
    rw [hnone] at hsome
    cases hsome
  refine
    { mirrors := ⟨hs.mirrors.nextHandle, hs.mirrors.tryGet⟩
      nodup := hs.nodup
      count_parked := fun h w => ?_
      wakers_bound := fun h hlt => ?_
      woken_bound := hs.woken_bound }
  · rw [List.count_append, hs.count_parked]
    by_cases hh : h = handle
    · subst hh
      have hcount : [(h, waker)].count (h, w) = [waker].count w := by
        by_cases hw : waker = w
        · simp [hw]
        · simp [hw]
      simp only [Function.update_self, List.count_append, hcount]
      omega
    · have hcount : [(handle, waker)].count (h, w) = 0 := by simp [Ne.symm hh]
      simp only [Function.update_of_ne hh, hcount]
      omega
  · show Function.update s.map.wakers handle _ h = []
    have hh : h ≠ handle := by
      rintro rfl
      exact hunbound hlt
    rw [Function.update_of_ne hh]
    exact hs.wakers_bound h hlt

variable [DecidableEq R]

/-- Every allowed call keeps the invariant. -/
theorem Tidy.step (hs : s.Tidy) {call : ResourceCall R} {s' : ResourceRun R}
    (hallowed : Allowed s call) (hstep : s.step call = some s') : s'.Tidy := by
  cases call with
  | bindIfNew order resource =>
      simp only [ResourceRun.step, ResourceMap.bindIfNewIn] at hstep
      cases hf : s.map.findIn order resource with
      | some handle =>
          simp only [hf] at hstep
          obtain rfl := Option.some.inj hstep
          exact hs
      | none =>
          simp only [hf] at hstep
          obtain rfl := Option.some.inj hstep
          exact hs.bind ((ResourceMap.findIn_eq_none_iff hallowed).mp hf)
  | find order resource =>
      obtain rfl := Option.some.inj hstep
      exact hs
  | tryGet handle =>
      obtain rfl := Option.some.inj hstep
      exact hs
  | update handle resource =>
      simp only [ResourceRun.step] at hstep
      cases hm : s.map.update handle resource with
      | none =>
          simp only [hm] at hstep
          obtain rfl := Option.some.inj hstep
          exact hs
      | some m =>
          simp only [hm] at hstep
          obtain rfl := Option.some.inj hstep
          have hsome : (s.map.tryGet handle).isSome = true := by
            unfold ResourceMap.update at hm
            split at hm
            · cases hm
            · rename_i hget
              simp [hget]
          exact hs.update ((hs.isSome_iff handle).mp hsome) (hallowed hsome) hm
  | pollGetEventually handle waker =>
      simp only [ResourceRun.step, ResourceMap.pollGetEventually] at hstep
      cases hget : s.map.tryGet handle with
      | some resource =>
          simp only [hget] at hstep
          obtain rfl := Option.some.inj hstep
          exact hs
      | none =>
          simp only [hget] at hstep
          obtain rfl := Option.some.inj hstep
          exact hs.park hget waker

/-! ## What a caller may rely on -/

/-- The bound handles count the new resources, no two of them have the same
resource, a resource is found and bound again under its handle, and the polls
of a handle are woken when it is bound and not before. -/
structure Orderly (s : ResourceRun R) : Prop where
  tryGet_eq : ∀ h, s.map.tryGet h = s.values[h]?
  distinct : ∀ h h' r, s.map.tryGet h = some r → s.map.tryGet h' = some r → h = h'
  find_iff : ∀ order, s.map.Enumerates order → ∀ r h,
    s.map.findIn order r = some h ↔ s.map.tryGet h = some r
  known_iff : ∀ order, s.map.Enumerates order → ∀ r h,
    (s.map.bindIfNewIn order r).1 = (h, false) ↔ s.map.tryGet h = some r
  new_iff : ∀ order, s.map.Enumerates order → ∀ r,
    (s.map.bindIfNewIn order r).1 = (s.values.length, true) ↔ ∀ h, s.map.tryGet h ≠ some r
  woken : ∀ h waker, h < s.values.length →
    s.woken.count (h, waker) = s.parked.count (h, waker)
  not_woken : ∀ h waker, ¬ h < s.values.length → (h, waker) ∉ s.woken

theorem Tidy.orderly (hs : s.Tidy) : s.Orderly where
  tryGet_eq := hs.mirrors.tryGet
  distinct := hs.inj
  find_iff := fun _ horder _ h => ResourceMap.findIn_eq_some_iff horder hs.inj h
  known_iff := fun order horder r h => by
    rw [← ResourceMap.findIn_eq_some_iff horder hs.inj h]
    unfold ResourceMap.bindIfNewIn
    cases s.map.findIn order r <;> simp [ResourceMap.bind]
  new_iff := fun order horder r => by
    rw [← ResourceMap.findIn_eq_none_iff horder]
    unfold ResourceMap.bindIfNewIn
    cases s.map.findIn order r <;> simp [ResourceMap.bind, hs.mirrors.nextHandle]
  woken := fun h waker hlt => by
    rw [hs.count_parked, hs.wakers_bound h hlt, List.count_nil, Nat.add_zero]
  not_woken := fun h waker hnot hmem => hnot (hs.woken_bound h waker hmem)

/-- After any calls the handles are dense, their resources are distinct, and
nobody waits for a bound handle. -/
theorem resource_maps_orderly
    (hs : Transition.Reachable step Allowed ({} : ResourceRun R) s) : s.Orderly :=
  (hs.invariant tidy_start fun _ _ _ htidy hallowed hstep => htidy.step hallowed hstep).orderly

/-- Somebody waits for the second handle. -/
def Sample.calls : List (ResourceCall Nat) :=
  [.bindIfNew [] 5, .pollGetEventually 1 9, .bindIfNew [0] 7]

theorem Sample.calls_allowed :
    Transition.AllowedAlong step Allowed ({} : ResourceRun Nat) Sample.calls := by
  refine ⟨fun h => ?_, trivial, fun h => ?_, trivial⟩
  · simp [ResourceMap.tryGet]
  · show h ∈ [0] ↔ (AList.lookup h (AList.insert 0 5 ∅)).isSome = true
    rw [AList.lookup_isSome, AList.mem_insert]
    simp

/-- Binding the second handle wakes it. -/
theorem resource_maps_orderly_woken :
    ∃ s : ResourceRun Nat, Transition.run step {} Sample.calls = some s ∧ s.Orderly ∧
      s.woken = [(1, 9)] :=
  ⟨_, rfl, resource_maps_orderly (Transition.Reachable.of_run rfl Sample.calls_allowed), rfl⟩

end ResourceRun

end IrohWillow
