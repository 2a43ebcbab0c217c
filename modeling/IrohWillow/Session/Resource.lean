import IrohWillow.Util.Channel

/-!
# Resource handles

`ResourceMap` of `session/resource.rs`: resources under the handles 0, 1, 2, …
in the order in which they are bound. Both peers count on their own; a handle
is never sent with the resource it is bound to.
-/

namespace IrohWillow

/-- `ResourceMap`. -/
structure ResourceMap (R : Type) where
  nextHandle : Nat := 0
  map : AList (fun _ : Nat => R) := ∅
  wakers : Nat → List Waker := fun _ => []

namespace ResourceMap

variable {R : Type}

/-- `ResourceMap::bind`; the tasks waiting for the handle are woken. -/
def bind (m : ResourceMap R) (resource : R) : Nat × ResourceMap R :=
  (m.nextHandle,
    { nextHandle := m.nextHandle + 1
      map := m.map.insert m.nextHandle resource
      wakers := Function.update m.wakers m.nextHandle [] })

/-- `ResourceMap::try_get`; `none` is `MissingResource`. -/
def tryGet (m : ResourceMap R) (handle : Nat) : Option R := m.map.lookup handle

/-- `ResourceMap::poll_get_eventually` by the task `waker`. -/
def pollGetEventually (m : ResourceMap R) (handle : Nat) (waker : Waker) :
    Poll R × ResourceMap R :=
  match m.tryGet handle with
  | some resource => (.ready resource, m)
  | none =>
      (.pending, { m with wakers := Function.update m.wakers handle (m.wakers handle ++ [waker]) })

/-- `ResourceMap::update`; `none` is `MissingResource`. -/
def update (m : ResourceMap R) (handle : Nat) (resource : R) : Option (ResourceMap R) :=
  match m.tryGet handle with
  | none => none
  | some _ => some { m with map := m.map.insert handle resource }

/-- `ResourceMap::iter`: the bound resources in some order of the handles, which
is that of the hash map. -/
def iter (m : ResourceMap R) (order : List Nat) : List (Nat × R) :=
  order.filterMap fun handle => (m.tryGet handle).map fun resource => (handle, resource)

/-- `ResourceMap::find`. -/
def find [DecidableEq R] (m : ResourceMap R) (resource : R) : Option Nat :=
  (m.map.entries.find? fun kv => decide (kv.2 = resource)).map (·.1)

/-- `ResourceMap::bind_if_new`. -/
def bindIfNew [DecidableEq R] (m : ResourceMap R) (resource : R) : (Nat × Bool) × ResourceMap R :=
  match m.find resource with
  | some handle => ((handle, false), m)
  | none =>
      let (handle, m') := m.bind resource
      ((handle, true), m')

/-! ## What the operations do to the bound handles -/

variable {m : ResourceMap R} {resource : R}

/-- The bound handles are those below `nextHandle`. -/
def Dense (m : ResourceMap R) : Prop := ∀ h, (m.tryGet h).isSome ↔ h < m.nextHandle

theorem dense_empty : ({} : ResourceMap R).Dense := by
  intro h
  simp [tryGet]

theorem Dense.tryGet_nextHandle (hm : m.Dense) : m.tryGet m.nextHandle = none := by
  have := hm m.nextHandle
  simpa using this

@[simp] theorem tryGet_bind_self : (m.bind resource).2.tryGet m.nextHandle = some resource := by
  simp [bind, tryGet]

theorem tryGet_bind_of_ne {h : Nat} (hne : h ≠ m.nextHandle) :
    (m.bind resource).2.tryGet h = m.tryGet h := by
  simp [bind, tryGet, AList.lookup_insert_ne hne]

/-- Binding keeps what is bound. -/
theorem Dense.tryGet_bind (hm : m.Dense) {h : Nat} {r : R} (hr : m.tryGet h = some r) :
    (m.bind resource).2.tryGet h = some r := by
  have hlt : h < m.nextHandle := (hm h).mp (by simp [hr])
  rw [tryGet_bind_of_ne hlt.ne, hr]

theorem Dense.bind (hm : m.Dense) : (m.bind resource).2.Dense := by
  intro h
  show _ ↔ h < m.nextHandle + 1
  by_cases heq : h = m.nextHandle
  · subst heq
    simp
  · rw [tryGet_bind_of_ne heq, hm h]
    omega

/-- The resources were bound in the order of the list. -/
structure Mirrors (m : ResourceMap R) (l : List R) : Prop where
  nextHandle : m.nextHandle = l.length
  tryGet : ∀ h, m.tryGet h = l[h]?

theorem mirrors_empty : ({} : ResourceMap R).Mirrors [] := ⟨rfl, fun h => by simp [tryGet]⟩

theorem Mirrors.bind {l : List R} (hm : m.Mirrors l) :
    (m.bind resource).2.Mirrors (l ++ [resource]) := by
  refine ⟨by simp [ResourceMap.bind, hm.nextHandle], fun h => ?_⟩
  by_cases hlast : h = m.nextHandle
  · subst hlast
    rw [tryGet_bind_self, hm.nextHandle]
    simp
  · rw [tryGet_bind_of_ne hlast, hm.tryGet]
    rw [hm.nextHandle] at hlast
    rcases lt_or_gt_of_ne hlast with hlt | hgt
    · exact (List.getElem?_append_left hlt).symm
    · rw [List.getElem?_eq_none_iff.mpr (by omega)]
      exact (List.getElem?_eq_none_iff.mpr (by simp; omega)).symm

/-- Updating replaces one resource. -/
theorem Mirrors.update {l : List R} (hm : m.Mirrors l) {h : Nat} (hh : h < l.length) :
    ∃ m', m.update h resource = some m' ∧ m'.Mirrors (l.set h resource) := by
  have hget : m.tryGet h = some l[h] := by rw [hm.tryGet, List.getElem?_eq_getElem hh]
  refine ⟨{ m with map := m.map.insert h resource }, by simp [ResourceMap.update, hget], ?_⟩
  refine ⟨by simp [hm.nextHandle], fun h' => ?_⟩
  by_cases heq : h' = h
  · subst heq
    simp [ResourceMap.tryGet, hh]
  · have hsame := hm.tryGet h'
    rw [ResourceMap.tryGet] at hsame ⊢
    rw [AList.lookup_insert_ne heq, hsame, List.getElem?_set_ne (Ne.symm heq)]

/-- Iteration finds what is bound. -/
theorem Mirrors.mem_iter {l : List R} (hm : m.Mirrors l) {order : List Nat} {h : Nat} {r : R} :
    (h, r) ∈ m.iter order ↔ h ∈ order ∧ l[h]? = some r := by
  simp only [iter, List.mem_filterMap, Option.map_eq_some_iff, Prod.mk.injEq]
  constructor
  · rintro ⟨h', hmem, r', hr', rfl, rfl⟩
    exact ⟨hmem, hm.tryGet h' ▸ hr'⟩
  · rintro ⟨hmem, hr⟩
    exact ⟨h, hmem, r, (hm.tryGet h).trans hr, rfl, rfl⟩

variable [DecidableEq R]

theorem tryGet_of_find {h : Nat} (hf : m.find resource = some h) : m.tryGet h = some resource := by
  obtain ⟨⟨k, r⟩, hk, rfl⟩ := Option.map_eq_some_iff.mp hf
  have hmem := List.mem_of_find?_eq_some hk
  obtain rfl : r = resource := by simpa using List.find?_some hk
  exact AList.mem_lookup_iff.mpr hmem

theorem find_ne_none {h : Nat} (hh : m.tryGet h = some resource) : m.find resource ≠ none := by
  have hmem : (⟨h, resource⟩ : Sigma fun _ : Nat => R) ∈ m.map.entries :=
    AList.mem_lookup_iff.mp hh
  intro hnone
  have hnot := List.find?_eq_none.mp (Option.map_eq_none_iff.mp hnone) _ hmem
  simp at hnot

/-- Either the resource is bound already and nothing changes, or it is bound
under the next handle. -/
theorem bindIfNew_cases (m : ResourceMap R) (resource : R) :
    (∃ h, m.tryGet h = some resource ∧ m.bindIfNew resource = ((h, false), m)) ∨
      m.bindIfNew resource = ((m.nextHandle, true), (m.bind resource).2) := by
  unfold bindIfNew
  cases hf : m.find resource with
  | some h => exact Or.inl ⟨h, tryGet_of_find hf, rfl⟩
  | none => exact Or.inr rfl

end ResourceMap

end IrohWillow
