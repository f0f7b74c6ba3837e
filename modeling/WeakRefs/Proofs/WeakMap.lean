import WeakRefs.Proofs.Insertion

/-!
# A map refines a weak map

A weak map takes keys to objects and loses every key whose object is reclaimed. A map with weakly
held values that is used with one heap behaves like it.
-/

namespace WeakRefs

/-- What a weak map takes keys to. -/
abbrev WeakMap := String → Option ObjectRef

namespace Op

/-- Whether an operation that works on map `x` does so through heap `i`. -/
def keepsTo (i x : Nat) : Op → Bool
  | mapInsert j y _ _ | mapGet j y _ | mapRemove j y _ | mapUpdate j y => y ≠ x ∨ j = i
  | _ => true

theorem eq_of_keepsTo {i j x y : Nat} (this_map : some y = some x)
    (only : decide (y ≠ x ∨ j = i) = true) : y = x ∧ j = i := by
  cases this_map
  exact ⟨rfl, (of_decide_eq_true only).resolve_left fun other => other rfl⟩

end Op

namespace Session
variable (s : Session) (i x : Nat)

/-- Whether an object of heap `i` has a strong root. -/
def isRootedIn (v : ObjectRef) : Bool := (s.collector? i).any fun c => c.heap.isReachable v

/-- What an operation on map `x` writes to the weak map: a successful insertion sets a key to a live
value and deletes it for a dead one, a removal deletes a key, an update all whose value has no
root. -/
def written (op : Op) (A : WeakMap) (key : String) : Option ObjectRef :=
  match op, (s.perform op).2 with
  | .mapInsert _ y k v, .done =>
    if y = x ∧ k = key then if s.isLiveIn i v then some v else none else A key
  | .mapRemove _ y k, _ => if y = x ∧ k = key then none else A key
  | .mapUpdate _ y, _ => if y = x then (A key).filter (s.isRootedIn i) else A key
  | _, _ => A key

/-- The weak map after an operation: what was written, less what was reclaimed. -/
def weakened (op : Op) (A : WeakMap) (key : String) : Option ObjectRef :=
  (s.written i x op A key).filter fun v => !(s.isLiveIn i v && !(s.perform op).1.isLiveIn i v)

/-- The weak map after a run. -/
def weakMap (i x : Nat) : Session → WeakMap → List Op → WeakMap
  | _, A, [] => A
  | s, A, op :: rest => weakMap i x (s.perform op).1 (s.weakened i x op A) rest

end Session

/-- Between operations map `x` mirrors a weak map of objects of heap `i`. -/
structure Refines (i x : Nat) (A : WeakMap) (s : Session) : Prop where
  boundKept : BoundKept i ⟨s, none, [], []⟩
  issued : Issued ⟨s, none, [], []⟩
  mirrors : HeapOrMapGone i x s ∨ ∀ key, Mirrors i x key ⟨s, none, [], []⟩ (A key)

def Weakens (i x : Nat) (A : WeakMap) (s : Session) (op : Op) (key : String) : Prop :=
  HeapOrMapGone i x (s.perform op).1 ∨
    Mirrors i x key ⟨(s.perform op).1, none, [], []⟩ (s.weakened i x op A key)

namespace Session
variable {s : Session} {i x : Nat}

section Missing
variable (missing : s.collector? i = none ∨ s.map? x = none)
include missing

theorem mapInsert_of_missing (k : String) (v : ObjectRef) :
    s.mapInsert i x k v = (s, .error .deadObject) := by
  unfold mapInsert
  split
  · rename_i c map here present
    rcases missing with gone | gone
    · rw [here] at gone
      cases gone
    · rw [present] at gone
      cases gone
  · rfl

theorem pruneMap_of_missing {c : Collector} (here : s.collector? i = some c) :
    s.pruneMap x = s ∧ s.map? x = none ∧ ∀ k, s.entry? x k = none := by
  rcases missing with gone | gone
  · rw [here] at gone
    cases gone
  · unfold pruneMap entry?
    rw [gone]
    exact ⟨rfl, rfl, fun _ => rfl⟩

theorem mapGet_of_missing (k : String) : (s.mapGet i x k).1 = s := by
  unfold mapGet
  split
  · rfl
  · rename_i c here
    obtain ⟨same, _, vacant⟩ := pruneMap_of_missing missing here
    dsimp only
    rw [same, vacant]

theorem mapRemove_of_missing (k : String) : (s.mapRemove i x k).1 = s := by
  unfold mapRemove
  split
  · rfl
  · rename_i c here
    obtain ⟨same, _, vacant⟩ := pruneMap_of_missing missing here
    dsimp only
    rw [same, vacant]

theorem mapUpdate_of_missing : s.mapUpdate i x = s := by
  unfold mapUpdate
  split
  · rfl
  · rename_i c here
    obtain ⟨same, gone, _⟩ := pruneMap_of_missing missing here
    dsimp only
    rw [same, gone]

end Missing

theorem perform_alloc (j : Nat) (kind : ObjectKind) :
    (s.perform (.alloc j kind)).1 = (s.alloc j kind).1 := by
  unfold perform
  dsimp only
  split <;> rfl

theorem perform_mapInsert (k : String) (v : ObjectRef) : s.perform (.mapInsert i x k v) =
    ((s.mapInsert i x k v).1, match (s.mapInsert i x k v).2 with
      | .ok _ => .done
      | .error e => .failed e) := by
  unfold perform
  dsimp only
  cases (s.mapInsert i x k v).2 with
  | ok done => rfl
  | error e => rfl

end Session

section Steps
variable {s : Session} {i x : Nat} {A : WeakMap} {key : String} {op : Op}

theorem spares_of_allows (elsewhere : op.map? ≠ some x) {t : Tag} (allowed : s.Allows op t) :
    t.Spares x key s := by
  refine ⟨?_, ?_, ?_, ?_⟩
  · intro same
    rw [same] at allowed
    cases allowed with
    | entry _ this_map => exact elsewhere this_map
  · intro same
    rw [same] at allowed
    cases allowed with
    | arrive arrives =>
      unfold Session.arrival? at arrives
      split at arrives
      · cases arrives
      · cases arrives
      · cases arrives
        exact elsewhere rfl
      · cases arrives
  · intro same
    rw [same] at allowed
    cases allowed with
    | thin this_map => exact elsewhere this_map
  · intro r _ defines
    cases t with
    | define f =>
      cases defines
      cases allowed with
      | report _ _ this_map => exact elsewhere this_map
      | user defined => cases op <;> cases defined
    | _ => exact defines

theorem calm_of_allows (calm : ∀ j kind, op ≠ .alloc j kind) {t : Tag} (allowed : s.Allows op t) :
    t ≠ .alloc := by
  intro same
  rw [same] at allowed
  cases allowed with
  | alloc allocates => exact calm _ _ allocates

theorem Session.written_of_elsewhere (elsewhere : op.map? ≠ some x) : s.written i x op A key =
    A key := by
  unfold Session.written
  split
  · rw [if_neg fun both => elsewhere (congrArg some both.1)]
  · rw [if_neg fun both => elsewhere (congrArg some both.1)]
  · rw [if_neg fun same => elsewhere (congrArg some same)]
  · rfl

namespace Weakens

theorem of_mirrors {a : Option ObjectRef} (written : s.written i x op A key = a)
    (after : Mirrors i x key ⟨(s.perform op).1, none, [], []⟩ a) : Weakens i x A s op key := by
  right
  unfold Session.weakened
  rw [written]
  cases a with
  | none => exact after
  | some v =>
    have live : (s.perform op).1.isLiveIn i v = true := after.isLiveIn
    simpa [live, Option.filter] using after

theorem of_follows (written : s.written i x op A key = A key)
    (mirrors : Mirrors i x key ⟨s, none, [], []⟩ (A key))
    (follows : Follows i x key (A key) ⟨(s.perform op).1, none, [], []⟩) :
    Weakens i x A s op key := by
  unfold Weakens Session.weakened
  rw [written]
  exact follows.settled mirrors

theorem of_missing (mirrors : Mirrors i x key ⟨s, none, [], []⟩ (A key))
    (missing : s.collector? i = none ∨ s.map? x = none) (this_map : op.map? = some x)
    (only : op.keepsTo i x = true) : Weakens i x A s op key := by
  have empty := mirrors.eq_none_of_missing missing
  have unchanged (same : (s.perform op).1 = s) (written : s.written i x op A key = none) :
      Weakens i x A s op key := by
    refine of_mirrors written ?_
    rw [same, ← empty]
    exact mirrors
  cases op with
  | mapInsert j y k v =>
    obtain ⟨rfl, rfl⟩ := Op.eq_of_keepsTo this_map only
    have performed : s.perform (.mapInsert j y k v) = (s, .failed .deadObject) := by
      rw [Session.perform_mapInsert, Session.mapInsert_of_missing missing k v]
    refine unchanged (congrArg Prod.fst performed) ?_
    unfold Session.written
    rw [performed]
    exact empty
  | mapGet j y k =>
    obtain ⟨rfl, rfl⟩ := Op.eq_of_keepsTo this_map only
    exact unchanged (Session.mapGet_of_missing missing k) empty
  | mapRemove j y k =>
    obtain ⟨rfl, rfl⟩ := Op.eq_of_keepsTo this_map only
    refine unchanged (Session.mapRemove_of_missing missing k) ?_
    unfold Session.written
    dsimp only
    rw [empty]
    exact ite_self _
  | mapUpdate j y =>
    obtain ⟨rfl, rfl⟩ := Op.eq_of_keepsTo this_map only
    refine unchanged (Session.mapUpdate_of_missing missing) ?_
    unfold Session.written
    dsimp only
    rw [empty]
    exact ite_self _
  | _ => cases this_map

section Present
variable (boundKept : BoundKept i ⟨s, none, [], []⟩)
variable (mirrors : ∀ key, Mirrors i x key ⟨s, none, [], []⟩ (A key))
include boundKept mirrors

theorem of_alloc (j : Nat) (kind : ObjectKind) : Weakens i x A s (.alloc j kind) key := by
  refine of_follows rfl (mirrors key) ?_
  rw [Session.perform_alloc]
  unfold Session.alloc
  split
  · exact (mirrors key).start
  · rename_i c here
    split
    · rename_i heap r allocated
      rw [Session.modifyHeap_eq here]
      exact (mirrors key).move boundKept.ownership (Move.alloc ⟨s, none, [], []⟩ here rfl allocated)
        ⟨nofun, nofun, nofun, fun _ _ => id⟩
    · exact (mirrors key).start

theorem of_elsewhere (elsewhere : op.map? ≠ some x) : Weakens i x A s op key := by
  by_cases allocates : ∃ j kind, op = .alloc j kind
  · obtain ⟨j, kind, same⟩ := allocates
    subst same
    exact of_alloc boundKept mirrors j kind
  · refine of_follows (Session.written_of_elsewhere elsewhere) (mirrors key) ?_
    have moves := Session.perform_moves_of_ownership boundKept.ownership op
    have calm : ∀ j kind, op ≠ .alloc j kind := fun j kind same => allocates ⟨j, kind, same⟩
    exact (mirrors key).start.run boundKept.ownership moves fun t allowed =>
      ⟨spares_of_allows elsewhere allowed, calm_of_allows calm allowed⟩

variable {c : Collector} (here : s.collector? i = some c)
variable {map : WeakValueMap} (present : s.map? x = some map)
include here present

theorem of_mapInsert (issued : Issued ⟨s, none, [], []⟩) (k : String) (v : ObjectRef) :
    Weakens i x A s (.mapInsert i x k v) key := by
  have performed := Session.perform_mapInsert (s := s) (i := i) (x := x) k v
  cases result : (s.mapInsert i x k v).2 with
  | error e =>
    rw [result] at performed
    refine of_follows ?_ (mirrors key) ?_
    · unfold Session.written
      rw [performed]
    · rw [performed]
      refine .after_mapInsert boundKept.ownership (mirrors key) (Or.inr ?_)
      rw [result]
      intro same
      cases same
  | ok done =>
    rw [result] at performed
    have written : s.written i x (.mapInsert i x k v) A key =
        if k = key then if s.isLiveIn i v then some v else none else A key := by
      unfold Session.written
      rw [performed]
      simp
    by_cases named : k = key
    · rw [if_pos named] at written
      subst named
      refine of_mirrors written ?_
      rw [performed]
      exact .after_mapInsert boundKept issued here present result
    · rw [if_neg named] at written
      refine of_follows written (mirrors key) ?_
      rw [performed]
      exact .after_mapInsert boundKept.ownership (mirrors key) (Or.inl named)

theorem of_mapGet (k : String) : Weakens i x A s (.mapGet i x k) key := by
  have moves := (mirrors k).mapGet_moves boundKept here present
  refine of_follows rfl (mirrors key) ?_
  exact (mirrors key).start.run boundKept.ownership moves fun t quiet =>
    t.spares_of_isQuiet quiet x key s

theorem of_mapRemove (k : String) : Weakens i x A s (.mapRemove i x k) key := by
  refine of_mirrors (a := if k = key then none else A key) ?_ ?_
  · unfold Session.written
    simp
  · exact (mirrors key).after_mapRemove boundKept here present (mirrors k)

theorem of_mapUpdate : Weakens i x A s (.mapUpdate i x) key := by
  refine of_mirrors (a := (A key).filter c.heap.isReachable) ?_ ?_
  · unfold Session.written Session.isRootedIn
    dsimp only
    rw [if_pos rfl, here]
    rfl
  · exact (mirrors key).after_mapUpdate boundKept here present

end Present

theorem perform (boundKept : BoundKept i ⟨s, none, [], []⟩) (issued : Issued ⟨s, none, [], []⟩)
    (mirrors : ∀ key, Mirrors i x key ⟨s, none, [], []⟩ (A key)) (only : op.keepsTo i x = true)
    (key : String) : Weakens i x A s op key := by
  by_cases this_map : op.map? = some x
  · by_cases missing : s.collector? i = none ∨ s.map? x = none
    · exact of_missing (mirrors key) missing this_map only
    obtain ⟨c, here⟩ := Option.ne_none_iff_exists'.mp fun gone => missing (Or.inl gone)
    obtain ⟨map, present⟩ := Option.ne_none_iff_exists'.mp fun gone => missing (Or.inr gone)
    cases op with
    | mapInsert j y k v =>
      obtain ⟨rfl, rfl⟩ := Op.eq_of_keepsTo this_map only
      exact of_mapInsert boundKept mirrors here present issued k v
    | mapGet j y k =>
      obtain ⟨rfl, rfl⟩ := Op.eq_of_keepsTo this_map only
      exact of_mapGet boundKept mirrors here present k
    | mapRemove j y k =>
      obtain ⟨rfl, rfl⟩ := Op.eq_of_keepsTo this_map only
      exact of_mapRemove boundKept mirrors here present k
    | mapUpdate j y =>
      obtain ⟨rfl, rfl⟩ := Op.eq_of_keepsTo this_map only
      exact of_mapUpdate boundKept mirrors here present
    | _ => cases this_map
  · exact of_elsewhere boundKept mirrors this_map

end Weakens

end Steps

namespace Refines
variable {i x : Nat} {A : WeakMap} {s : Session}

theorem perform (refines : Refines i x A s) {op : Op} (plain : op.scripts i = false)
    (only : op.keepsTo i x = true) : Refines i x (s.weakened i x op A) (s.perform op).1 := by
  have ownership := refines.boundKept.ownership
  have moves := Session.perform_moves_of_ownership ownership op
  refine ⟨Session.boundKept_perform refines.boundKept plain, refines.issued.run ownership moves, ?_⟩
  rcases refines.mirrors with past | mirrors
  · left
    exact moves.preserves (I := fun m => HeapOrMapGone i x m.session)
      (fun _ move past => past.move move) past
  · by_cases past : HeapOrMapGone i x (s.perform op).1
    · exact Or.inl past
    · right
      intro key
      exact (Weakens.perform refines.boundKept refines.issued mirrors only key).resolve_left past

theorem run (refines : Refines i x A s) {ops : List Op} (plain : ∀ op ∈ ops, op.scripts i = false)
    (only : ∀ op ∈ ops, op.keepsTo i x = true) :
    Refines i x (Session.weakMap i x s A ops) (s.after ops) := by
  induction ops generalizing s A with
  | nil => exact refines
  | cons op rest ih =>
    have first := refines.perform (plain op List.mem_cons_self) (only op List.mem_cons_self)
    exact ih first (fun op later => plain op (List.mem_cons_of_mem _ later))
      fun op later => only op (List.mem_cons_of_mem _ later)

theorem empty : Refines i x (fun _ => none) {} where
  boundKept := .empty
  issued := .empty
  mirrors := Or.inr fun key => .vacant (by simp [Session.entry?, Session.map?])

end Refines

/-- A map that is used with one heap, without a script, answers as the weak map does. -/
theorem map_refines_weakMap {ops : List Op} {i x : Nat}
    (plain : ∀ op ∈ ops, op.scripts i = false) (only : ∀ op ∈ ops, op.keepsTo i x = true)
    {c : Collector} (here : (Session.after {} ops).collector? i = some c)
    (alive : (Session.after {} ops).isAlive c.heap.runtime = true) {map : WeakValueMap}
    (present : (Session.after {} ops).map? x = some map) (key : String) :
    let A := Session.weakMap i x {} (fun _ => none) ops
    (Session.after {} ops).targetAt? (.entry x key) = A key ∧
    (∀ v, ((Session.after {} ops).mapGet i x key).2 = some v ↔
      A key = some v ∧ c.heap.isReachable v = true) ∧
    (∃ d, ((Session.after {} ops).mapGet i x key).1.collector? i = some d ∧
      d.heap.stats.collections = c.heap.stats.collections +
        if (A key).any (c.heap.kind? · = some .plain) then 1 else 0) ∧
    ∀ v, ((Session.after {} ops).mapRemove i x key).2 = some v ↔
      A key = some v ∧ c.heap.isReachable v = true := by
  intro A
  have refines : Refines i x A (Session.after {} ops) := Refines.empty.run plain only
  have mirrors := refines.mirrors.resolve_left (not_over here present) key
  refine ⟨mirrors.targetAt?, ?_, mirrors.collections_mapGet refines.boundKept here present alive,
    ?_⟩
  · intro v
    rw [mirrors.answer_mapGet refines.boundKept here present alive, Option.filter_eq_some_iff]
  · intro v
    rw [mirrors.answer_mapRemove refines.boundKept here present, Option.filter_eq_some_iff]

/-- The cleanup of a value that was replaced comes late, and leaves the new entry alone. -/
theorem replaced_entry_survives :
    let ops : List Op := [.newHeap {}, .alloc 0 .plain, .alloc 0 .plain, .newMap,
      .mapInsert 0 0 "key" ⟨0, 0⟩, .mapInsert 0 0 "key" ⟨1, 0⟩, .release 0 ⟨0, 0⟩, .collect 0]
    ((Session.after {} ops).mapGet 0 0 "key").2 = some ⟨1, 0⟩ := by
  intro ops
  have there : ((Session.after {} ops).collector? 0).any (fun c =>
      (Session.after {} ops).isAlive c.heap.runtime && c.heap.isReachable ⟨1, 0⟩) = true := by
    decide +kernel
  obtain ⟨c, here, both⟩ := (Option.any_eq_true _ _).mp there
  obtain ⟨alive, rooted⟩ := Bool.and_eq_true_iff.mp both
  have mapped : ((Session.after {} ops).map? 0).isSome := by decide +kernel
  obtain ⟨map, present⟩ := Option.isSome_iff_exists.mp mapped
  have plain : ∀ op ∈ ops, op.scripts 0 = false := by decide
  have only : ∀ op ∈ ops, op.keepsTo 0 0 = true := by decide
  obtain ⟨_, get, _, _⟩ := map_refines_weakMap plain only here alive present "key"
  exact (get ⟨1, 0⟩).mpr ⟨by decide +kernel, rooted⟩

end WeakRefs
