import WeakRefs.Session.Delivery

/-!
# What the primitive changes of a session do to its views

The views are `pinned`, `cell`, `collector?`, `ref?` and `map?`. For each primitive change there is
one equation per view that it touches; the others hold by definition.
-/

namespace WeakRefs

namespace Session

section Views
variable (s : Session)

theorem emitAll_eq (es : List Event) :
    s.emitAll es = { s with journal := s.journal ++ es.toArray } := by
  induction es generalizing s with
  | nil => simp [emitAll]
  | cons e rest ih =>
    rw [emitAll, List.foldl_cons, ← emitAll, ih]
    simp [emit]

theorem pinned_modifyPins (p q : Nat) (f : Roster HandleId → Roster HandleId) :
    (s.modifyPins p f).pinned q =
      if p = q ∧ p < s.pinSets.size then f (s.pinned q) else s.pinned q := by
  unfold pinned modifyPins
  rw [Array.getD_eq_getD_getElem?, Array.getD_eq_getD_getElem?, Array.getElem?_modify]
  by_cases same : p = q
  · subst same
    by_cases inside : p < s.pinSets.size
    · simp [inside]
    · simp [inside]
  · simp [same]

theorem mem_pinned_pin (p q : Nat) (handle h : HandleId) :
    h ∈ (s.pin p handle).pinned q ↔
      (p = q ∧ p < s.pinSets.size ∧ h = handle) ∨ h ∈ s.pinned q := by
  rw [pin, pinned_modifyPins]
  split
  · rename_i inside
    simp [inside.1, inside.1 ▸ inside.2]
  · rename_i outside
    constructor
    · exact Or.inr
    · rintro (⟨same, inside, _⟩ | there)
      · exact absurd ⟨same, inside⟩ outside
      · exact there

theorem mem_pinned_unpin (p q : Nat) (handle h : HandleId) :
    h ∈ (s.unpin p handle).pinned q ↔ ¬ (p = q ∧ h = handle) ∧ h ∈ s.pinned q := by
  rw [unpin, pinned_modifyPins]
  split
  · rename_i inside
    simp [inside.1]
  · rename_i outside
    constructor
    · intro there
      refine ⟨?_, there⟩
      rintro ⟨same, _⟩
      refine outside ⟨same, ?_⟩
      subst same
      by_cases inside : p < s.pinSets.size
      · exact inside
      · have : s.pinned p = ∅ := by
          simp [pinned, Array.getD_eq_getD_getElem?, inside]
        rw [this] at there
        exact absurd there (Roster.not_mem_empty h)
    · exact And.right

theorem cell_setCell (c d : Nat) (state : Cell ObjectRef) :
    (s.setCell c state).cell d = if c = d ∧ c < s.cells.size then state else s.cell d := by
  unfold cell setCell
  rw [Array.getD_eq_getD_getElem?, Array.getD_eq_getD_getElem?, Array.getElem?_setIfInBounds]
  by_cases same : c = d
  · subst same
    by_cases inside : c < s.cells.size
    · simp [inside]
    · simp [inside]
  · simp [same]

theorem collector?_modifyCollector (i j : Nat) (f : Collector → Collector) :
    (s.modifyCollector i f).collector? j =
      if i = j then (s.collector? j).map f else s.collector? j := by
  unfold collector? modifyCollector
  rw [Array.getElem?_modify]
  split
  · cases s.collectors[j]? with
    | none => rfl
    | some c => cases c <;> rfl
  · rfl

theorem ref?_setRef (r q : Nat) (ref : Option WeakReference) :
    (s.setRef r ref).ref? q = if r = q ∧ r < s.refs.size then ref else s.ref? q := by
  unfold ref? setRef
  rw [Array.getElem?_setIfInBounds]
  by_cases same : r = q
  · subst same
    by_cases inside : r < s.refs.size
    · simp [inside]
    · simp [inside]
  · simp [same]

theorem ref?_addRef (q : Nat) (ref : Option WeakReference) :
    (s.addRef ref).ref? q = if q = s.refs.size then ref else s.ref? q := by
  unfold ref? addRef
  rw [Array.getElem?_push]
  split <;> rfl

theorem map?_setMap (m q : Nat) (map : Option WeakValueMap) :
    (s.setMap m map).map? q = if m = q ∧ m < s.maps.size then map else s.map? q := by
  unfold map? setMap
  rw [Array.getElem?_setIfInBounds]
  by_cases same : m = q
  · subst same
    by_cases inside : m < s.maps.size
    · simp [inside]
    · simp [inside]
  · simp [same]

theorem map?_modifyMap (m q : Nat) (f : WeakValueMap → WeakValueMap) :
    (s.modifyMap m f).map? q = if m = q then (s.map? q).map f else s.map? q := by
  unfold map? modifyMap
  rw [Array.getElem?_modify]
  split
  · cases s.maps[q]? with
    | none => rfl
    | some x => cases x <;> rfl
  · rfl

end Views

section Frame
variable (s : Session) (focus : Focus) (roots : Nat)

@[simp] theorem collectors_emit (e : Event) : (s.emit e).collectors = s.collectors := rfl

@[simp] theorem collectors_supersede (pins c : Nat) (handle : HandleId) :
    (s.supersede pins c handle).collectors = s.collectors := by
  unfold supersede
  dsimp only
  split <;> rfl

@[simp] theorem collectors_disarm (r : WeakReference) :
    (s.disarm roots r).collectors = s.collectors := by
  unfold disarm
  split <;> simp

@[simp] theorem collectors_discard (r : WeakReference) :
    (s.discard r).collectors = s.collectors := by
  unfold discard
  split <;> simp

@[simp] theorem collectors_discardAll (rs : List WeakReference) :
    (s.discardAll rs).collectors = s.collectors := by
  induction rs generalizing s with
  | nil => rfl
  | cons r rest ih => exact (ih (s.discard r)).trans (s.collectors_discard r)

theorem collectors_releaseRef (r : Nat) : (s.releaseRef roots r).collectors = s.collectors := by
  unfold releaseRef
  split
  · exact s.collectors_disarm roots _
  · rfl

theorem collectors_dropRef (r : Nat) : (s.dropRef r).collectors = s.collectors := by
  unfold dropRef
  split
  · exact s.collectors_discard _
  · rfl

theorem collectors_dropMap (m : Nat) : (s.dropMap m).collectors = s.collectors := by
  unfold dropMap
  split
  · exact s.collectors_discardAll _
  · rfl

section Guards
variable {s : Session} {focus : Focus} {P : Session → Prop}

/-- A guarded action on a reference is refused, or carried out on a reference that is not in use. -/
theorem onRef_induction {r : Nat} {f : WeakReference → Session × ActionReply} (refused : P s)
    (done : focus ≠ .reference r → ∀ ref, P (f ref).1) : P (s.onRef focus r f).1 := by
  unfold onRef
  split
  · exact refused
  · rename_i idle
    split
    · exact done idle _
    · exact refused

theorem onMap_induction {m : Nat} {f : WeakValueMap → Session × ActionReply} (refused : P s)
    (done : focus ≠ .map m → ∀ map, P (f map).1) : P (s.onMap focus m f).1 := by
  unfold onMap
  split
  · exact refused
  · rename_i idle
    split
    · exact done idle _
    · exact refused

end Guards

theorem collectors_onRef {r : Nat} {f : WeakReference → Session × ActionReply}
    (h : ∀ ref, (f ref).1.collectors = s.collectors) :
    (s.onRef focus r f).1.collectors = s.collectors :=
  onRef_induction (P := fun t => t.collectors = s.collectors) rfl fun _ => h

theorem collectors_onMap {m : Nat} {f : WeakValueMap → Session × ActionReply}
    (h : ∀ map, (f map).1.collectors = s.collectors) :
    (s.onMap focus m f).1.collectors = s.collectors :=
  onMap_induction (P := fun t => t.collectors = s.collectors) rfl fun _ => h

theorem collectors_act (a : Action) : (s.act focus roots a).1.collectors = s.collectors := by
  cases a with
  | pin handle => rfl
  | unpin handle => rfl
  | isAlive x => rfl
  | pinCount pins => rfl
  | isBound r => exact s.collectors_onRef focus fun _ => rfl
  | release r => exact s.collectors_onRef focus fun _ => s.collectors_releaseRef roots r
  | dropRef r => exact s.collectors_onRef focus fun _ => s.collectors_dropRef r
  | mapSize m => exact s.collectors_onMap focus fun _ => rfl
  | dropMap m => exact s.collectors_onMap focus fun _ => s.collectors_dropMap m

theorem collectors_actAll (actions : List Action) :
    (s.actAll focus roots actions).1.collectors = s.collectors := by
  induction actions generalizing s with
  | nil => rfl
  | cons a rest ih => exact (ih (s.act focus roots a).1).trans (s.collectors_act focus roots a)

theorem collectors_endBinding (c : Nat) (handle : HandleId) :
    (s.endBinding roots c handle).collectors = s.collectors := by
  unfold endBinding
  dsimp only
  split <;> rfl

theorem collectors_deliver (f : Finalizer) :
    (s.deliver focus roots f).collectors = s.collectors := by
  cases f with
  | endBinding c handle => exact (s.logRun _).collectors_endBinding roots c handle
  | report m key handle => rfl
  | user label actions => exact (s.logRun _).collectors_actAll focus roots actions

/-- No delivery changes a heap, so a batch that is due stays the batch that is due. -/
theorem collectors_deliverAll (due : List Finalizer) :
    (s.deliverAll focus roots due).collectors = s.collectors := by
  induction due generalizing s with
  | nil => rfl
  | cons f rest ih =>
    exact (ih (s.deliver focus roots f)).trans (s.collectors_deliver focus roots f)

end Frame

end Session

end WeakRefs
