import WeakRefs.Proofs.AbstractStore
import WeakRefs.Proofs.ObjectNames
import WeakRefs.Proofs.Noninterference

/-!
# A heap realizes the lives of its objects

`lives` is the store that a run makes of heap `i`. While no slot has been vacated 2 ^ 32 times, each
name is given once, and the heap realizes the store.
-/

namespace WeakRefs

namespace Session

/-- What a host does to the objects of heap `i` by an operation without weak references. -/
def deedsOf (s : Session) (i : Nat) : Op → List Deed
  | .alloc j kind => (s.givenBy i (.alloc j kind)).map fun r => .create r kind
  | .retain j r => if j = i then [.retain r] else []
  | .release j r => if j = i then [.release r] else []
  | .collect j => if j = i then [.collect] else []
  | _ => []

/-- What is done to the objects of heap `i` in an operation, by its host or for a weak reference. -/
def deeds (s : Session) (i : Nat) (op : Op) : List Deed := (s.stripped op).flatMap (s.deedsOf i)

/-- The objects that heap `i` has made in a run, oldest first. -/
def lives (i : Nat) (ops : List Op) : List Life :=
  (trace (fun s op => s.deeds i op) {} ops).foldl Deed.on []

variable {s : Session} {i : Nat} {op : Op} {ops : List Op} {h heap : Heap Finalizer}

section Deeds

theorem lives_concat (i : Nat) (ops : List Op) (op : Op) :
    lives i (ops ++ [op]) = ((Session.after {} ops).deeds i op).foldl Deed.on (lives i ops) := by
  unfold lives
  rw [trace_concat, List.foldl_append]

theorem names_deeds (s : Session) (i : Nat) (op : Op) :
    (s.deeds i op).flatMap Deed.names = s.givenBy i op := by
  have quiet {j : Nat} {d : Deed} (old : d.names = []) :
      (if j = i then [d] else []).flatMap Deed.names = [] := by
    split <;> simp [old]
  have own : (s.deedsOf i op).flatMap Deed.names = s.givenBy i op := by
    cases op with
    | alloc j kind => simp [deedsOf, List.flatMap_map, Deed.names]
    | retain j r => exact quiet rfl
    | release j r => exact quiet rfl
    | collect j => exact quiet rfl
    | _ => exact (givenBy_of_ne (by simp)).symm
  unfold deeds
  by_cases itself : s.stripped op = [op]
  · rw [itself, List.flatMap_singleton, own]
  · have none_given : s.givenBy i op = [] := by
      refine givenBy_of_ne fun kind same => itself ?_
      rw [same]
      exact s.stripped_of_isBare rfl
    rw [none_given]
    rcases s.stripped_cases op with ⟨_, bare⟩ | nothing | ⟨j, _, collects⟩
    · exact absurd bare itself
    · rw [nothing]
      rfl
    · rw [collects, List.flatMap_singleton]
      exact quiet rfl

theorem names_foldl_on (deeds : List Deed) (store : List Life) :
    (deeds.foldl Deed.on store).map Life.name =
    store.map Life.name ++ deeds.flatMap Deed.names := by
  induction deeds generalizing store with
  | nil => simp
  | cons d rest ih =>
    rw [List.foldl_cons, ih, Deed.map_name_on, List.flatMap_cons, List.append_assoc]

theorem names_lives (i : Nat) (ops : List Op) : (lives i ops).map Life.name = given i {} ops := by
  induction ops using List.reverseRecOn with
  | nil => rfl
  | append_singleton ops op ih =>
    rw [lives_concat, names_foldl_on, ih, names_deeds, given_concat]

theorem join_modify {α : Type} (bares : Array (Option α)) (j i : Nat) (g : α → α) :
    (bares.modify j (Option.map g))[i]?.join =
      if j = i then bares[i]?.join.map g else bares[i]?.join := by
  rw [Array.getElem?_modify]
  split
  · cases bares[i]? with
    | none => rfl
    | some b => cases b <;> rfl
  · rfl

theorem join_onBares (here : s.heap? i = some h) {asked : Op} (calm : asked ≠ .shutDown i) :
    (Op.onBares s.bares asked)[i]?.join = some ((s.deedsOf i asked).foldl Heap.undergo h.bare) := by
  obtain ⟨c, there, same⟩ := Option.map_eq_some_iff.mp here
  have before : s.bares[i]?.join = some h.bare := by
    rw [getElem?_bares, there, ← same]
    rfl
  have work {j : Nat} {d : Deed} : (s.bares.modify j (Option.map fun b => b.undergo d))[i]?.join =
      some ((if j = i then [d] else []).foldl Heap.undergo h.bare) := by
    rw [join_modify, before]
    split <;> rfl
  cases asked with
  | newHeap config =>
    have inside := s.lt_size_of_collector? there
    unfold Op.onBares
    dsimp only
    rw [Array.getElem?_push, size_bares, if_neg (Nat.ne_of_lt inside)]
    exact before
  | shutDown j =>
    have other : j ≠ i := fun same => calm (same ▸ rfl)
    unfold Op.onBares
    dsimp only
    rw [Array.getElem?_setIfInBounds, if_neg other]
    exact before
  | alloc j kind =>
    change (s.bares.modify j (Option.map fun b => b.afterAlloc kind))[i]?.join = _
    rw [join_modify, before]
    split
    · rename_i named
      subst named same
      have bare := c.heap.bare_alloc kind
      rw [deedsOf]
      cases allocated : c.heap.alloc kind with
      | ok made =>
        have gives : s.givenBy j (.alloc j kind) = [made.2] := by
          simp [givenBy, perform_alloc_of_ok there allocated]
        rw [gives]
        rfl
      | error e =>
        have gives : s.givenBy j (.alloc j kind) = [] := by
          simp [givenBy, perform_alloc_of_error there allocated]
        rw [gives, Option.map_some, Heap.afterAlloc, bare, allocated]
        rfl
    · rename_i other
      have gives : s.givenBy i (.alloc j kind) = [] :=
        givenBy_of_ne fun kind' same => other (by cases same; rfl)
      rw [deedsOf, gives]
      rfl
  | retain j r => exact work (d := .retain r)
  | release j r => exact work (d := .release r)
  | collect j => exact work (d := .collect)
  | _ => exact before

theorem bare_of_deeds (here : s.heap? i = some h) (there : (s.perform op).1.heap? i = some heap) :
    heap.bare = (s.deeds i op).foldl Heap.undergo h.bare := by
  have after : (s.perform op).1.bares[i]?.join = some heap.bare := by
    obtain ⟨c, there, same⟩ := Option.map_eq_some_iff.mp there
    rw [getElem?_bares, there, ← same]
    rfl
  rw [bares_perform] at after
  unfold deeds
  have one {asked : Op} (single : s.stripped op = [asked]) (calm : asked ≠ .shutDown i) :
      heap.bare = ((s.stripped op).flatMap (s.deedsOf i)).foldl Heap.undergo h.bare := by
    rw [single] at after ⊢
    rw [List.flatMap_singleton]
    exact Option.some.inj (after.symm.trans (join_onBares here calm))
  rcases s.stripped_cases op with ⟨_, itself⟩ | nothing | ⟨j, _, collects⟩
  · refine one itself fun same => ?_
    subst same
    have gone : (s.perform (.shutDown i)).1.heap? i = none :=
      Option.map_eq_none_iff.mpr ((collector?_shutDown s i i).trans (if_pos rfl))
    cases gone.symm.trans there
  · rw [nothing] at after ⊢
    obtain ⟨c, before, same⟩ := Option.map_eq_some_iff.mp here
    rw [List.foldl_nil, getElem?_bares, before, Option.map_some, same] at after
    exact (Option.some.inj after).symm
  · exact one collects (by simp)

end Deeds

section Names

theorem vacated_concat (index : Nat) (s : Session) (ops : List Op) (op : Op) :
    vacated i index s (ops ++ [op]) =
      vacated i index s ops + ((s.after ops).vacates i index op).toNat := by
  induction ops generalizing s with
  | nil => simp [vacated]
  | cons first rest ih => rw [List.cons_append, vacated, ih, vacated, after_cons, Nat.add_assoc]

theorem vacated_le_length (index : Nat) (s : Session) (ops : List Op) :
    vacated i index s ops ≤ ops.length := by
  induction ops generalizing s with
  | nil => exact Nat.le_refl _
  | cons op rest ih =>
    have one := Bool.toNat_le (s.vacates i index op)
    have others := ih (s.perform op).1
    rw [vacated, List.length_cons]
    omega

theorem vacates_of_heap? (index : Nat) (here : s.heap? i = some h)
    (there : (s.perform op).1.heap? i = some heap) :
    s.vacates i index op = (h.isFull index && !heap.isFull index) := by
  obtain ⟨c, before, rfl⟩ := Option.map_eq_some_iff.mp here
  obtain ⟨d, after, rfl⟩ := Option.map_eq_some_iff.mp there
  exact vacates_eq before after

theorem vacated_of_unopened (unopened : (Session.after {} ops).collectors.size ≤ i) (index : Nat) :
    vacated i index {} ops = 0 := by
  induction ops using List.reverseRecOn with
  | nil => rfl
  | append_singleton ops op ih =>
    have before := Nat.le_trans (size_collectors_mono (List.prefix_append ops [op])) unopened
    have absent : (Session.after {} ops).collector? i = none := by
      simp [collector?, before]
    rw [vacated_concat, ih before]
    simp [vacates, isFullIn, absent]

/-- The generation of a slot tells how often it was vacated, and a name that was given is that of
the object in its slot or belongs to an earlier generation. -/
structure Aging (i : Nat) (ops : List Op) (h : Heap Finalizer) : Prop where
  age : ∀ index, (h.generationAt index).toNat = vacated i index {} ops
  older : ∀ r ∈ given i {} ops,
    r.generation.toNat + (if h.isFull r.index then 0 else 1) ≤ vacated i r.index {} ops
  nodup : (given i {} ops).Nodup

namespace Aging

theorem opened {config : HeapConfig} (last : (Session.after {} ops).collectors.size = i)
    (new : h.slots = #[]) : Aging i (ops ++ [.newHeap config]) h := by
  have none_given : given i {} (ops ++ [.newHeap config]) = [] := by
    rw [given_concat, given_of_unopened (Nat.le_of_eq last)]
    rfl
  have absent : (Session.after {} ops).collector? i = none := by
    simp [collector?, last]
  refine ⟨fun index => ?_, ?_, ?_⟩
  · rw [vacated_concat, vacated_of_unopened (Nat.le_of_eq last)]
    simp [vacates, isFullIn, absent, Heap.generationAt, new]
  · rw [none_given]
    intro r listed
    cases listed
  · rw [none_given]
    exact List.nodup_nil

theorem fresh (aging : Aging i ops h) {r : ObjectRef} (empty : h.isFull r.index = false)
    (named : r = h.refAt r.index) : r ∉ given i {} ops := by
  intro listed
  have older := aging.older r listed
  have age := aging.age r.index
  have generation : h.generationAt r.index = r.generation :=
    congrArg ObjectRef.generation named.symm
  rw [empty] at older
  rw [generation] at age
  simp only [Bool.false_eq_true, if_false] at older
  omega

theorem alloc (aging : Aging i ops h) {kind : ObjectKind} {r : ObjectRef}
    (there : (Session.after {} ops).heap? i = some h) (allocated : h.alloc kind = .ok (heap, r))
    (gives : (Session.after {} ops).givenBy i (.alloc i kind) = [r])
    (now : (Session.after {} (ops ++ [.alloc i kind])).heap? i = some heap) :
    Aging i (ops ++ [.alloc i kind]) heap := by
  obtain ⟨empty, named, full, generation⟩ := Heap.alloc_slot (sound_of_heap? there) allocated
  rw [after_append] at now
  have stays (index : Nat) :
      vacated i index {} (ops ++ [.alloc i kind]) = vacated i index {} ops := by
    rw [vacated_concat, vacates_of_heap? index there now, full]
    cases h.isFull index <;> simp
  have age (index : Nat) :
      (heap.generationAt index).toNat = vacated i index {} (ops ++ [.alloc i kind]) := by
    rw [stays, generation, aging.age]
  refine ⟨age, ?_, ?_⟩
  · rw [given_concat, gives]
    intro q listed
    rw [stays]
    rcases List.mem_append.mp listed with old | new
    · have older := aging.older q old
      rw [full]
      by_cases same : q.index = r.index
      · rw [decide_eq_true same, Bool.true_or, if_pos rfl]
        omega
      · rw [decide_eq_false same, Bool.false_or]
        exact older
    · rw [List.mem_singleton.mp new, full, decide_eq_true rfl, ← aging.age]
      have same : h.generationAt r.index = r.generation := congrArg ObjectRef.generation named.symm
      rw [same]
      exact Nat.le_refl _
  · rw [given_concat, gives]
    exact List.nodup_append.mpr ⟨aging.nodup, by simp, fun q old p new same =>
      aging.fresh empty named (List.mem_singleton.mp new ▸ same ▸ old)⟩

theorem course (aging : Aging i ops h) (there : (Session.after {} ops).heap? i = some h)
    (course : h.Course heap) (gives : (Session.after {} ops).givenBy i op = [])
    (now : (Session.after {} (ops ++ [op])).heap? i = some heap)
    (few : ∀ index, vacated i index {} (ops ++ [op]) < 4294967296) :
    Aging i (ops ++ [op]) heap := by
  rw [after_append] at now
  have same : given i {} (ops ++ [op]) = given i {} ops := by
    rw [given_concat, gives, List.append_nil]
  have count (index : Nat) : vacated i index {} (ops ++ [op]) =
      vacated i index {} ops + (h.isFull index && !heap.isFull index).toNat := by
    rw [vacated_concat, vacates_of_heap? index there now]
  refine ⟨fun index => ?_, ?_, same ▸ aging.nodup⟩
  · have ages : Heap.Ages index h heap := .course course
    have age := aging.age index
    have few := few index
    rw [count] at few ⊢
    rw [ages.generation]
    cases vacated : h.isFull index && !heap.isFull index with
    | false => simpa using age
    | true =>
      rw [vacated, Bool.toNat_true] at few
      rw [if_pos rfl, UInt32.toNat_add, age]
      exact Nat.mod_eq_of_lt few
  · rw [same]
    intro r listed
    have older := aging.older r listed
    have ages : Heap.Ages r.index h heap := .course course
    have unfilled := ages.unfilled
    rw [count]
    cases before : h.isFull r.index <;> cases after : heap.isFull r.index <;> simp_all

end Aging

end Names

theorem realizes_lives {c : Collector} (plain : ∀ op ∈ ops, op.scripts i = false)
    (here : (Session.after {} ops).collector? i = some c)
    (few : ∀ index, vacated i index {} ops < 4294967296) :
    Aging i ops c.heap ∧ Realizes c.heap (lives i ops) := by
  have shorter {ops : List Op} {op : Op}
      (few : ∀ index, vacated i index {} (ops ++ [op]) < 4294967296) (index : Nat) :
      vacated i index {} ops < 4294967296 := by
    have := few index
    rw [vacated_concat] at this
    omega
  refine heap_induction (P := fun ops h => (∀ index, vacated i index {} ops < 4294967296) →
    Aging i ops h ∧ Realizes h (lives i ops)) ?_ ?_ ?_ plain here few
  · intro ops config h last new _ _
    have aging : Aging i (ops ++ [.newHeap config]) h := .opened last (by rw [new])
    have none_made : lives i (ops ++ [.newHeap config]) = [] := by
      apply List.map_eq_nil_iff.mp
      rw [names_lives, given_concat, given_of_unopened (Nat.le_of_eq last)]
      rfl
    rw [none_made, new]
    exact ⟨new ▸ aging, by simp, fun r _ => by simp [Heap.shows, Heap.object?], by simp⟩
  · intro ops kind h heap r there held allocated gives now few
    obtain ⟨aging, realizes⟩ := held (shorter few)
    have sound := sound_of_heap? there
    obtain ⟨empty, named, _⟩ := Heap.alloc_slot sound allocated
    have made : (Session.after {} ops).deeds i (.alloc i kind) = [.create r kind] := by
      rw [deeds, stripped_of_isBare _ rfl, List.flatMap_singleton, deedsOf, gives]
      rfl
    refine ⟨aging.alloc there allocated gives now, ?_⟩
    rw [lives_concat, made]
    exact realizes.create sound allocated (by rw [names_lives]; exact aging.fresh empty named)
  · intro ops op h heap there held course gives now few
    obtain ⟨aging, realizes⟩ := held (shorter few)
    refine ⟨aging.course there course gives now few, ?_⟩
    have old : ∀ d ∈ (Session.after {} ops).deeds i op, d.names = [] := by
      have none_made := names_deeds (.after {} ops) i op
      rw [gives] at none_made
      exact List.flatMap_eq_nil_iff.mp none_made
    rw [after_append] at now
    have bare : Realizes h.bare (lives i ops) := realizes.congr h.shows_bare
    have undergone := bare.undergo_all old
    rw [← bare_of_deeds there now, ← lives_concat] at undergone
    exact undergone.congr fun r => (heap.shows_bare r).symm

/-- What can be done through the name of an object that is gone: nothing, but that a finalizer that
is defined on it runs. -/
structure Powerless (s : Session) (i : Nat) (c : Collector) (r : ObjectRef) : Prop where
  retain : (s.perform (.retain i r)).1 = s
  release : (s.perform (.release i r)).1 = s
  define : ∀ focus f,
    s.define focus i r f = (s.deliverDue focus i c.heap.pins [f], .ok .indirect)

theorem powerless_of_dead {c : Collector} (here : s.collector? i = some c) (plain : c.IsPlain)
    {r : ObjectRef} (dead : c.heap.object? r = none) : Powerless s i c r := by
  have stale := stale_of_dead here plain dead
  refine ⟨stale.retain, stale.release, fun focus f => ?_⟩
  have live : c.heap.isLive r = false := by
    rw [Heap.isLive, dead]
    rfl
  rcases define_plain here plain focus r f with ⟨heap, a, kept, _⟩ | ⟨_, done⟩ | ⟨e, other, _⟩
  · cases (Heap.isLive_of_kept kept).symm.trans live
  · exact done
  · cases other.symm.trans live

/-- Heap `i` after a run, against the store of its lives. -/
structure Lifetimes (i : Nat) (ops : List Op) (c : Collector) : Prop where
  /-- The lives are those of the names that were given, and no name was given twice. -/
  names : (lives i ops).map Life.name = given i {} ops
  nodup : (given i {} ops).Nodup
  isLive : ∀ l ∈ lives i ops, c.heap.isLive l.name = l.alive
  isReachable : ∀ l ∈ lives i ops, c.heap.isReachable l.name = (l.alive && decide (0 < l.roots))
  kind : ∀ l ∈ lives i ops, c.heap.kind? l.name = if l.alive then some l.kind else none
  /-- What was never given names nothing. -/
  others : ∀ r, r ∉ given i {} ops → c.heap.isLive r = false
  dead : ∀ l ∈ lives i ops, l.alive = false → Powerless (.after {} ops) i c l.name

end Session

/-- While no slot is vacated 2 ^ 32 times, a heap shows its host just the lives of its objects. -/
theorem heap_realizes_lives {i : Nat} {ops : List Op} {c : Collector}
    (plain : ∀ op ∈ ops, op.scripts i = false) (here : (Session.after {} ops).collector? i = some c)
    (few : ∀ index, Session.vacated i index {} ops < 4294967296) : Session.Lifetimes i ops c := by
  obtain ⟨aging, realizes⟩ := Session.realizes_lives plain here few
  have plain_now := ((Session.RunBalance.start.run plain).there c here).plain
  have names := Session.names_lives i ops
  refine ⟨names, aging.nodup, fun l listed => ?_, fun l listed => ?_, fun l listed => ?_,
    fun r absent => ?_, fun l listed dead => ?_⟩
  · rw [Heap.isLive_eq_shows, realizes.listed l listed, Life.shows]
    cases l.alive <;> rfl
  · rw [Heap.isReachable_eq_shows, realizes.listed l listed, Life.shows]
    cases l.alive <;> rfl
  · rw [Heap.kind?_eq_shows, realizes.listed l listed, Life.shows]
    cases l.alive <;> rfl
  · rw [Heap.isLive_eq_shows, realizes.others r (by rw [names]; exact absent)]
    rfl
  · have shows := realizes.listed l listed
    rw [Life.shows, dead] at shows
    exact Session.powerless_of_dead here plain_now (Option.map_eq_none_iff.mp shows)

theorem lives_after_reuse : ∃ ops c,
    ops = [.newHeap {}, .alloc 0 .emittable, .alloc 0 .plain, .release 0 ⟨0, 0⟩,
      .alloc 0 .immediate, .release 0 ⟨1, 0⟩, .retain 0 ⟨0, 0⟩] ∧
      (Session.after {} ops).collector? 0 = some c ∧ Session.Lifetimes 0 ops c ∧
      Session.lives 0 ops = [⟨⟨0, 0⟩, .emittable, 0, false⟩, ⟨⟨1, 0⟩, .plain, 0, true⟩,
        ⟨⟨0, 1⟩, .immediate, 1, true⟩] := by
  obtain ⟨ops, run⟩ : ∃ ops : List Op, ops = [.newHeap {}, .alloc 0 .emittable, .alloc 0 .plain,
    .release 0 ⟨0, 0⟩, .alloc 0 .immediate, .release 0 ⟨1, 0⟩, .retain 0 ⟨0, 0⟩] := ⟨_, rfl⟩
  have plain : ∀ op ∈ ops, op.scripts 0 = false := by
    rw [run]
    decide +kernel
  have few (index : Nat) : Session.vacated 0 index {} ops < 4294967296 := by
    have short := Session.vacated_le_length (i := 0) index {} ops
    have length : ops.length = 7 := by rw [run]; rfl
    omega
  have present : ((Session.after {} ops).collector? 0).isSome = true := by
    rw [run]
    decide +kernel
  obtain ⟨c, here⟩ := Option.isSome_iff_exists.mp present
  refine ⟨ops, c, run, here, heap_realizes_lives plain here few, ?_⟩
  rw [run]
  decide +kernel

end WeakRefs
