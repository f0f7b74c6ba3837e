import WeakRefs.Proofs.BareHeap

/-!
# Objects as a store of lives

In this store no object is ever used again for another: an object is a `Life`, and `Life.undergo`
tells what becomes of it. A heap realizes a store if it shows under each name what the store has.
-/

namespace WeakRefs

/-- What a host does to the objects of a heap. -/
inductive Deed where
  | create (name : ObjectRef) (kind : ObjectKind)
  | retain (name : ObjectRef)
  | release (name : ObjectRef)
  | collect
  deriving DecidableEq

/-- An object that a host has made; it stays on record after its death. -/
structure Life where
  name : ObjectRef
  kind : ObjectKind
  roots : Nat := 1
  alive : Bool := true
  deriving DecidableEq

namespace Life

/-- What becomes of an object by a deed; nothing more once it is dead. An emittable object dies by
the release of its last root, any other by a collection that finds it without roots. -/
def undergo (l : Life) : Deed → Life
  | .create _ _ => l
  | .retain name => if l.alive ∧ l.name = name then { l with roots := l.roots + 1 } else l
  | .release name =>
    if l.alive ∧ l.name = name then
      { l with
        roots := l.roots - 1
        alive := !decide (l.kind = .emittable ∧ l.roots - 1 = 0) }
    else l
  | .collect =>
    if l.alive ∧ l.kind ≠ .emittable ∧ l.roots = 0 then { l with alive := false } else l

@[simp] theorem name_undergo (l : Life) (d : Deed) : (l.undergo d).name = l.name := by
  unfold undergo
  split <;> first | rfl | (split <;> rfl)

def shows (l : Life) : Option (ObjectKind × Nat) := if l.alive then some (l.kind, l.roots) else none

end Life

namespace Deed

/-- What a deed does to all lives, oldest first. -/
def on (store : List Life) : Deed → List Life
  | create name kind => store ++ [{ name, kind }]
  | d => store.map fun l => l.undergo d

def names : Deed → List ObjectRef
  | create name _ => [name]
  | _ => []

def leaves (q : ObjectRef) : Deed → ObjectKind × Nat → Option (ObjectKind × Nat)
  | create _ _, seen => some seen
  | retain name, (kind, roots) => some (kind, if q = name then roots + 1 else roots)
  | release name, (kind, roots) =>
    if q = name then
      if kind = .emittable ∧ roots - 1 = 0 then none else some (kind, roots - 1)
    else some (kind, roots)
  | collect, (kind, roots) => if roots = 0 then none else some (kind, roots)

theorem map_name_on (store : List Life) (d : Deed) :
    (d.on store).map Life.name = store.map Life.name ++ d.names := by
  cases d <;> simp [on, names, Function.comp_def]

end Deed

def Life.Rooted (l : Life) : Prop := l.alive = true → l.kind = .emittable → 0 < l.roots

namespace Life

theorem Rooted.undergo {l : Life} (rooted : l.Rooted) (d : Deed) : (l.undergo d).Rooted := by
  cases d with
  | create name kind => exact rooted
  | retain name =>
    dsimp only [Life.undergo]
    split
    · exact fun _ _ => Nat.succ_pos _
    · exact rooted
  | release name =>
    dsimp only [Life.undergo]
    split
    · intro alive emittable
      dsimp only at alive emittable ⊢
      rw [Bool.not_eq_true', decide_eq_false_iff_not] at alive
      exact Nat.pos_of_ne_zero fun none_left => alive ⟨emittable, none_left⟩
    · exact rooted
  | collect =>
    dsimp only [Life.undergo]
    split
    · intro alive
      cases alive
    · exact rooted

theorem shows_undergo {l : Life} (rooted : l.Rooted) (d : Deed) :
    (l.undergo d).shows = l.shows.bind (d.leaves l.name) := by
  cases living : l.alive with
  | false =>
    have same : l.undergo d = l := by
      cases d <;> simp [undergo, living]
    rw [same, shows, living]
    rfl
  | true =>
    have seen : l.shows = some (l.kind, l.roots) := by
      rw [shows, living]
      rfl
    rw [seen, Option.bind_some]
    cases d with
    | create name kind => exact seen
    | retain name =>
      unfold undergo Deed.leaves
      by_cases named : l.name = name <;> simp [named, living, shows]
    | release name =>
      unfold undergo Deed.leaves
      by_cases named : l.name = name
      · by_cases last : l.kind = .emittable ∧ l.roots - 1 = 0 <;> simp [named, living, shows, last]
      · simp [named, living, shows]
    | collect =>
      unfold undergo Deed.leaves
      have rooted := rooted living
      by_cases unrooted : l.roots = 0
      · have other : l.kind ≠ .emittable := fun emittable => by
          have := rooted emittable
          omega
        simp [living, shows, unrooted, other]
      · simp [living, shows, unrooted]

end Life

namespace Heap
variable {φ : Type} (h : Heap φ)

def shows (r : ObjectRef) : Option (ObjectKind × Nat) := (h.object? r).map fun o =>
    (o.kind, o.roots)

theorem shows_bare (r : ObjectRef) : h.bare.shows r = h.shows r := by
  unfold shows
  rw [object?_bare, Option.map_map]
  rfl

theorem isLive_eq_shows (r : ObjectRef) : h.isLive r = (h.shows r).isSome := by
  rw [shows, Option.isSome_map]
  rfl

theorem kind?_eq_shows (r : ObjectRef) : h.kind? r = (h.shows r).map Prod.fst := by
  rw [shows, Option.map_map]
  rfl

theorem isReachable_eq_shows (r : ObjectRef) :
    h.isReachable r = (h.shows r).any fun seen => 0 < seen.2 := by
  rw [shows, Option.any_map]
  rfl

theorem object?_release (r q : ObjectRef) : (h.release r).1.object? q =
    if q = r then (h.object? q).bind fun o =>
      if o.kind = .emittable ∧ o.roots - 1 = 0 then none else some { o with roots := o.roots - 1 }
    else h.object? q := by
  unfold release
  cases live : h.object? r with
  | none =>
    dsimp only
    split
    · rename_i named
      rw [named, live]
      rfl
    · rfl
  | some o =>
    have written := h.object?_setObject live { o with roots := o.roots - 1 }
    simp only [Object.isUnrooted, decide_eq_true_eq]
    by_cases last : o.kind = .emittable ∧ o.roots - 1 = 0
    · rw [if_pos last.symm, object?_reclaimAll, written]
      by_cases named : q = r
      · simp [named, live, last]
      · rw [if_neg named, if_neg named]
        by_cases same : q.index = r.index
        · rw [if_pos (List.mem_singleton.mpr same)]
          cases there : h.object? q with
          | none => rfl
          | some o' =>
            have name := h.refAt_of_object? there
            rw [same, h.refAt_of_object? live] at name
            exact absurd name.symm named
        · rw [if_neg fun listed => same (List.mem_singleton.mp listed)]
    · rw [if_neg fun due => last due.symm]
      by_cases named : q = r
      · rw [written, if_pos named, if_pos named, named, live, Option.bind_some, if_neg last]
      · rw [written, if_neg named, if_neg named]

def undergo : Deed → Heap φ
  | .create _ kind => h.afterAlloc kind
  | .retain name => h.retain name
  | .release name => (h.release name).1
  | .collect => h.sweep.1.countCollection

theorem shows_undergo {d : Deed} (old : d.names = []) (q : ObjectRef) :
    (h.undergo d).shows q = (h.shows q).bind (d.leaves q) := by
  unfold shows
  cases d with
  | create name kind => cases old
  | retain name =>
    change ((h.retain name).object? q).map _ = _
    rw [object?_retain]
    cases h.object? q with
    | none => rfl
    | some o =>
      by_cases named : q = name <;> simp [Deed.leaves, named]
  | release name =>
    change ((h.release name).1.object? q).map _ = _
    rw [object?_release]
    cases h.object? q with
    | none => simp
    | some o =>
      by_cases named : q = name
      · by_cases last : o.kind = .emittable ∧ o.roots - 1 = 0 <;> simp [Deed.leaves, named, last]
      · simp [Deed.leaves, named]
  | collect =>
    change (h.sweep.1.object? q).map _ = _
    rw [object?_sweep]
    cases h.object? q with
    | none => rfl
    | some o =>
      by_cases unrooted : o.roots = 0
      · simp [Deed.leaves, unrooted, Option.filter]
      · simp [Deed.leaves, unrooted, Option.filter, Nat.pos_of_ne_zero]

end Heap

/-- A heap shows what a store has, and nothing else. -/
structure Realizes {φ : Type} (h : Heap φ) (store : List Life) : Prop where
  listed : ∀ l ∈ store, h.shows l.name = l.shows
  others : ∀ r, r ∉ store.map Life.name → h.shows r = none
  rooted : ∀ l ∈ store, l.Rooted

namespace Realizes
variable {φ : Type} {h heap : Heap φ} {store : List Life}

theorem congr {ψ : Type} {heap : Heap ψ} (realizes : Realizes h store)
    (same : ∀ r, heap.shows r = h.shows r) : Realizes heap store where
  listed l there := (same l.name).trans (realizes.listed l there)
  others r absent := (same r).trans (realizes.others r absent)
  rooted := realizes.rooted

theorem undergo (realizes : Realizes h store) {d : Deed} (old : d.names = []) :
    Realizes (h.undergo d) (d.on store) := by
  have on : d.on store = store.map fun l => l.undergo d := by
    cases d <;> first | rfl | cases old
  have names : (d.on store).map Life.name = store.map Life.name := by
    rw [Deed.map_name_on, old, List.append_nil]
  constructor
  · intro l there
    rw [on] at there
    obtain ⟨l, before, rfl⟩ := List.mem_map.mp there
    rw [Life.name_undergo, h.shows_undergo old, realizes.listed l before,
      Life.shows_undergo (realizes.rooted l before)]
  · intro r absent
    rw [names] at absent
    rw [h.shows_undergo old, realizes.others r absent]
    rfl
  · intro l there
    rw [on] at there
    obtain ⟨l, before, rfl⟩ := List.mem_map.mp there
    exact (realizes.rooted l before).undergo d

theorem undergo_all (realizes : Realizes h store) {deeds : List Deed}
    (old : ∀ d ∈ deeds, d.names = []) :
    Realizes (deeds.foldl Heap.undergo h) (deeds.foldl Deed.on store) := by
  induction deeds generalizing h store with
  | nil => exact realizes
  | cons d rest ih =>
    exact ih (realizes.undergo (old d List.mem_cons_self)) fun d' listed =>
      old d' (List.mem_cons_of_mem d listed)

/-- A new object under a new name; the others do not notice. -/
theorem create (realizes : Realizes h store) (sound : h.Sound) {kind : ObjectKind} {r : ObjectRef}
    (allocated : h.alloc kind = .ok (heap, r)) (fresh : r ∉ store.map Life.name) :
    Realizes heap (Deed.on store (.create r kind)) := by
  have shows (q : ObjectRef) : heap.shows q = if q = r then some (kind, 1) else h.shows q := by
    unfold Heap.shows
    rw [Heap.object?_alloc sound allocated]
    split <;> rfl
  constructor
  · intro l there
    rcases List.mem_append.mp there with old | new
    · have other : l.name ≠ r := fun same => fresh (same ▸ List.mem_map_of_mem old)
      rw [shows, if_neg other, realizes.listed l old]
    · rw [List.mem_singleton.mp new, shows, if_pos rfl]
      rfl
  · intro q absent
    rw [Deed.map_name_on, List.mem_append, not_or] at absent
    have other : q ≠ r := fun same => absent.2 (List.mem_singleton.mpr same)
    rw [shows, if_neg other, realizes.others q absent.1]
  · intro l there
    rcases List.mem_append.mp there with old | new
    · exact realizes.rooted l old
    · rw [List.mem_singleton.mp new]
      exact fun _ _ => Nat.one_pos

end Realizes

end WeakRefs
