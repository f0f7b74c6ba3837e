import WeakRefs.Session.Op
import WeakRefs.Session.Views

/-!
# How bindings end

A binding ends when its cell is superseded, cleared by a read or fired by its finalizer. Each of
these touches one cell, and the pin of one handle if the cell was bound.
-/

namespace WeakRefs

namespace WeakReference

/-- The cell of the current binding. -/
def cell? (r : WeakReference) : Option Nat := r.binding.map Binding.cell

theorem cell?_eq_some_iff {r : WeakReference} {c : Nat} :
    r.cell? = some c ↔ ∃ b, r.binding = some b ∧ b.cell = c := by
  simp [cell?]

theorem cell?_of_binding {r : WeakReference} {b : Binding} (binding : r.binding = some b) :
    r.cell? = some b.cell := congrArg (Option.map Binding.cell) binding

end WeakReference

namespace Session

/-- Nothing but cells, pins and events differs, as far as references, maps and heaps go. -/
structure SameButBindings (s s' : Session) : Prop where
  refs : s'.refs = s.refs
  maps : s'.maps = s.maps
  collectors : s'.collectors = s.collectors
  handles : s'.handles = s.handles
  runtimes : s'.runtimes = s.runtimes
  runs : s'.runs = s.runs
  alive : s'.alive = s.alive
  /-- Members of pin sets may change, the sets are the same. -/
  pinSets : s'.pinSets.size = s.pinSets.size

namespace SameButBindings
variable {s s' s'' : Session}

theorem refl (s : Session) : SameButBindings s s := ⟨rfl, rfl, rfl, rfl, rfl, rfl, rfl, rfl⟩

theorem trans (h : SameButBindings s s') (h' : SameButBindings s' s'') : SameButBindings s s'' where
  refs := h'.refs.trans h.refs
  maps := h'.maps.trans h.maps
  collectors := h'.collectors.trans h.collectors
  handles := h'.handles.trans h.handles
  runtimes := h'.runtimes.trans h.runtimes
  runs := h'.runs.trans h.runs
  alive := h'.alive.trans h.alive
  pinSets := h'.pinSets.trans h.pinSets

theorem ref? (h : SameButBindings s s') (r : Nat) : s'.ref? r = s.ref? r := by
  unfold Session.ref?
  rw [h.refs]

theorem map? (h : SameButBindings s s') (m : Nat) : s'.map? m = s.map? m := by
  unfold Session.map?
  rw [h.maps]

theorem entry? (h : SameButBindings s s') (m : Nat) (key : String) :
    s'.entry? m key = s.entry? m key := by
  unfold Session.entry?
  rw [h.map?]

theorem collector? (h : SameButBindings s s') (i : Nat) : s'.collector? i = s.collector? i := by
  unfold Session.collector?
  rw [h.collectors]

end SameButBindings

section Cells
variable (s : Session) (pins c : Nat) (handle : HandleId)

theorem supersede_eq : s.supersede pins c handle = { s with
    cells := s.cells.setIfInBounds c .superseded
    pinSets := if (s.cell c).isBound then s.pinSets.modify pins (·.erase handle)
      else s.pinSets } := by
  unfold supersede Cell.supersede
  dsimp only
  split <;> rfl

theorem sameButBindings_supersede : SameButBindings s (s.supersede pins c handle) := by
  unfold supersede
  dsimp only
  split
  · exact ⟨rfl, rfl, rfl, rfl, rfl, rfl, rfl, by simp [unpin, modifyPins, setCell]⟩
  · exact ⟨rfl, rfl, rfl, rfl, rfl, rfl, rfl, rfl⟩

theorem sameButBindings_clearDead : SameButBindings s (s.clearDead pins c handle) := by
  unfold clearDead
  dsimp only
  split
  · exact ⟨rfl, rfl, rfl, rfl, rfl, rfl, rfl, by simp [unpin, modifyPins, setCell]⟩
  · exact ⟨rfl, rfl, rfl, rfl, rfl, rfl, rfl, rfl⟩

theorem sameButBindings_endBinding : SameButBindings s (s.endBinding pins c handle) := by
  unfold endBinding
  dsimp only
  split
  · exact ⟨rfl, rfl, rfl, rfl, rfl, rfl, rfl, by simp [unpin, modifyPins, setCell, emit]⟩
  · exact ⟨rfl, rfl, rfl, rfl, rfl, rfl, rfl, rfl⟩

theorem cell_congr {s s' : Session} (same : s'.cells = s.cells) (c : Nat) :
    s'.cell c = s.cell c := by
  unfold cell
  rw [same]

@[simp] theorem cell_emit (e : Event) (d : Nat) : (s.emit e).cell d = s.cell d := rfl

@[simp] theorem cell_logRun (f : Finalizer) (d : Nat) : (s.logRun f).cell d = s.cell d := rfl

@[simp] theorem pinned_setCell (state : Cell ObjectRef) (q : Nat) :
    (s.setCell c state).pinned q = s.pinned q := rfl

@[simp] theorem pinned_emit (e : Event) (q : Nat) : (s.emit e).pinned q = s.pinned q := rfl

@[simp] theorem pinned_logRun (f : Finalizer) (q : Nat) : (s.logRun f).pinned q = s.pinned q := rfl

theorem cell_of_size_le {d : Nat} (outside : s.cells.size ≤ d) : s.cell d = .superseded := by
  simp [cell, Array.getD_eq_getD_getElem?, outside]

/-- A number that names no cell reads as superseded, which no step out of a binding changes. -/
theorem cell_setCell_of_final {state : Cell ObjectRef} (final : s.cell c = .superseded →
    state = .superseded) (d : Nat) :
    (s.setCell c state).cell d = if d = c then state else s.cell d := by
  rw [cell_setCell]
  by_cases same : c = d
  · subst same
    by_cases inside : c < s.cells.size
    · simp [inside]
    · have outside := s.cell_of_size_le (Nat.le_of_not_lt inside)
      simp [inside, outside, final outside]
  · have other : ¬ d = c := fun e => same e.symm
    simp [same, other]

theorem cell_supersede (d : Nat) :
    (s.supersede pins c handle).cell d = if d = c then .superseded else s.cell d := by
  rw [← s.cell_setCell_of_final c (fun _ => rfl) d]
  unfold supersede Cell.supersede
  dsimp only
  split <;> rfl

theorem cell_clearDead (d : Nat) :
    (s.clearDead pins c handle).cell d = if d = c then (s.cell c).clear.1 else s.cell d := by
  rw [← s.cell_setCell_of_final c (fun gone => by rw [gone]; rfl) d]
  unfold clearDead
  dsimp only
  split <;> rfl

theorem cell_endBinding (d : Nat) :
    (s.endBinding pins c handle).cell d = if d = c then (s.cell c).fire.1 else s.cell d := by
  rw [← s.cell_setCell_of_final c (fun gone => by rw [gone]; rfl) d]
  unfold endBinding
  dsimp only
  split <;> rfl

/-- The pin of a handle goes exactly with a binding that was in force. -/
theorem mem_pinned_supersede (q : Nat) (h : HandleId) :
    h ∈ (s.supersede pins c handle).pinned q ↔
      h ∈ s.pinned q ∧ ¬ ((s.cell c).isBound = true ∧ q = pins ∧ h = handle) := by
  unfold supersede
  dsimp only
  split
  · rename_i bound
    rw [mem_pinned_unpin, pinned_setCell]
    simp only [Cell.supersede_snd] at bound
    simp [bound, and_comm, eq_comm]
  · rename_i unbound
    simp only [Cell.supersede_snd] at unbound
    simp [unbound]

theorem mem_pinned_clearDead (q : Nat) (h : HandleId) :
    h ∈ (s.clearDead pins c handle).pinned q ↔
      h ∈ s.pinned q ∧ ¬ ((s.cell c).isBound = true ∧ q = pins ∧ h = handle) := by
  unfold clearDead
  dsimp only
  split
  · rename_i bound
    rw [mem_pinned_unpin, pinned_setCell]
    simp only [Cell.clear_snd] at bound
    simp [bound, and_comm, eq_comm]
  · rename_i unbound
    simp only [Cell.clear_snd] at unbound
    simp [unbound]

theorem mem_pinned_endBinding (q : Nat) (h : HandleId) :
    h ∈ (s.endBinding pins c handle).pinned q ↔
      h ∈ s.pinned q ∧ ¬ ((s.cell c).isBound = true ∧ q = pins ∧ h = handle) := by
  have releases : (s.cell c).fire.2.releasesPin = (s.cell c).isBound := by
    cases s.cell c <;> rfl
  unfold endBinding
  dsimp only
  split
  · rename_i bound
    rw [pinned_emit, mem_pinned_unpin, pinned_setCell]
    rw [releases] at bound
    simp [bound, and_comm, eq_comm]
  · rename_i unbound
    rw [releases] at unbound
    simp [unbound]

theorem size_cells_supersede : (s.supersede pins c handle).cells.size = s.cells.size := by
  unfold supersede
  dsimp only
  split <;> simp [setCell, unpin, modifyPins]

theorem size_cells_clearDead : (s.clearDead pins c handle).cells.size = s.cells.size := by
  unfold clearDead
  dsimp only
  split <;> simp [setCell, unpin, modifyPins]

theorem size_cells_endBinding : (s.endBinding pins c handle).cells.size = s.cells.size := by
  unfold endBinding
  dsimp only
  split <;> simp [setCell, unpin, modifyPins, emit]

end Cells

section References
variable (s : Session) (roots : Nat) (r : WeakReference)

theorem isBound_iff : s.isBound r = true ↔ ∃ c, r.cell? = some c ∧ (s.cell c).isBound = true := by
  cases r with
  | mk id binding => cases binding <;> simp [isBound, WeakReference.cell?]

theorem target?_eq_some_iff {t : ObjectRef} :
    s.target? r = some t ↔ ∃ c, r.cell? = some c ∧ s.cell c = .bound t := by
  cases r with
  | mk id binding => cases binding <;> simp [target?, WeakReference.cell?, Cell.get?_eq_some_iff]

theorem isBound_iff_target? : s.isBound r = true ↔ ∃ t, s.target? r = some t := by
  simp only [isBound_iff, target?_eq_some_iff, Cell.isBound_iff]
  constructor
  · rintro ⟨c, own, t, bound⟩
    exact ⟨t, c, own, bound⟩
  · rintro ⟨t, c, own, bound⟩
    exact ⟨c, own, t, bound⟩

theorem target?_eq_none {s : Session} {r : WeakReference} (unbound : s.isBound r = false) :
    s.target? r = none := by
  refine Option.eq_none_iff_forall_ne_some.mpr fun t target => ?_
  rw [(s.isBound_iff_target? r).mpr ⟨t, target⟩] at unbound
  cases unbound

theorem binding_of_target? {s : Session} {r : WeakReference} {t : ObjectRef}
    (target : s.target? r = some t) : ∃ b, r.binding = some b ∧ s.cell b.cell = .bound t := by
  obtain ⟨c, mine, bound⟩ := (s.target?_eq_some_iff r).mp target
  obtain ⟨b, binding, rfl⟩ := WeakReference.cell?_eq_some_iff.mp mine
  exact ⟨b, binding, bound⟩

theorem isBound_eq_false_iff :
    s.isBound r = false ↔ ∀ c, r.cell? = some c → (s.cell c).isBound = false := by
  rw [← Bool.not_eq_true, isBound_iff]
  simp

theorem isBound_of_binding (s : Session) {r : WeakReference} {b : Binding}
    (binding : r.binding = some b) : s.isBound r = (s.cell b.cell).isBound := by
  rw [isBound, binding]
  rfl

theorem target?_of_binding (s : Session) {r : WeakReference} {b : Binding}
    (binding : r.binding = some b) : s.target? r = (s.cell b.cell).get? := by
  rw [target?, binding]
  rfl

/-- What a reference is bound to depends on its cell alone. -/
theorem isBound_congr {s s' : Session} {r : WeakReference}
    (same : ∀ c, r.cell? = some c → s'.cell c = s.cell c) : s'.isBound r = s.isBound r := by
  rw [Bool.eq_iff_iff, isBound_iff, isBound_iff]
  constructor
  · rintro ⟨c, own, bound⟩
    exact ⟨c, own, same c own ▸ bound⟩
  · rintro ⟨c, own, bound⟩
    exact ⟨c, own, (same c own).symm ▸ bound⟩

theorem sameButBindings_disarm : SameButBindings s (s.disarm roots r) := by
  unfold disarm
  split
  · exact (s.sameButBindings_supersede _ _ _).trans ⟨rfl, rfl, rfl, rfl, rfl, rfl, rfl, rfl⟩
  · exact .refl s

theorem sameButBindings_discard : SameButBindings s (s.discard r) := by
  unfold discard
  split
  · exact s.sameButBindings_supersede _ _ _
  · exact .refl s

theorem sameButBindings_discardAll (rs : List WeakReference) :
    SameButBindings s (s.discardAll rs) := by
  induction rs generalizing s with
  | nil => exact .refl s
  | cons r rest ih => exact (s.sameButBindings_discard r).trans (ih (s.discard r))

theorem discard_congr {s t : Session} (cells : t.cells = s.cells) (pinSets : t.pinSets = s.pinSets)
    (r : WeakReference) : t.discard r =
      { t with cells := (s.discard r).cells, pinSets := (s.discard r).pinSets } := by
  unfold discard
  split
  · rw [supersede_eq, supersede_eq, cell_congr cells, cells, pinSets]
  · rw [← cells, ← pinSets]

/-- To let go of references reads and writes cells and pin sets alone. -/
theorem discardAll_congr {s t : Session} (cells : t.cells = s.cells)
    (pinSets : t.pinSets = s.pinSets) (rs : List WeakReference) : t.discardAll rs =
      { t with cells := (s.discardAll rs).cells, pinSets := (s.discardAll rs).pinSets } := by
  induction rs generalizing s t with
  | nil =>
    change t = { t with cells := s.cells, pinSets := s.pinSets }
    rw [← cells, ← pinSets]
  | cons r rest ih =>
    have first := discard_congr cells pinSets r
    have later := ih (s := s.discard r) (t := t.discard r) (by rw [first]) (by rw [first])
    change (t.discard r).discardAll rest = _
    rw [later, first]
    rfl

theorem cell_disarm (d : Nat) :
    (s.disarm roots r).cell d = if r.cell? = some d then .superseded else s.cell d := by
  unfold disarm
  split
  · rename_i b binding
    rw [cell_emit, cell_supersede]
    simp [WeakReference.cell?, binding, eq_comm]
  · rename_i empty
    simp [WeakReference.cell?, empty]

theorem cell_discard (d : Nat) :
    (s.discard r).cell d = if r.cell? = some d then .superseded else s.cell d := by
  unfold discard
  split
  · rename_i b binding
    rw [cell_supersede]
    simp [WeakReference.cell?, binding, eq_comm]
  · rename_i empty
    simp [WeakReference.cell?, empty]

theorem cell_discardAll (rs : List WeakReference) (d : Nat) :
    (s.discardAll rs).cell d =
      if ∃ r ∈ rs, r.cell? = some d then .superseded else s.cell d := by
  induction rs generalizing s with
  | nil => simp [discardAll]
  | cons r rest ih =>
    have rest_first : s.discardAll (r :: rest) = (s.discard r).discardAll rest := rfl
    rw [rest_first, ih, cell_discard]
    by_cases later : ∃ r ∈ rest, r.cell? = some d
    · simp [later]
    · by_cases first : r.cell? = some d <;> simp [later, first]

@[simp] theorem isBound_disarm : (s.disarm roots r).isBound r = false := by
  rw [isBound_eq_false_iff]
  intro c own
  rw [cell_disarm, if_pos own]
  rfl

@[simp] theorem isBound_discard : (s.discard r).isBound r = false := by
  rw [isBound_eq_false_iff]
  intro c own
  rw [cell_discard, if_pos own]
  rfl

theorem bound_of_discard {d : Nat} {t : ObjectRef}
    (bound : (s.discard r).cell d = .bound t) : s.cell d = .bound t := by
  rw [cell_discard] at bound
  split at bound
  · cases bound
  · exact bound

/-- A reference that was unbound stays so while bindings only end. -/
theorem isBound_of_ends {s s' : Session} {r : WeakReference}
    (ends : ∀ d t, s'.cell d = .bound t → s.cell d = .bound t) (unbound : s.isBound r = false) :
    s'.isBound r = false := by
  rw [isBound_eq_false_iff] at unbound ⊢
  intro c own
  cases state : (s'.cell c).isBound with
  | false => rfl
  | true =>
    obtain ⟨t, bound⟩ := (s'.cell c).isBound_iff.mp state
    have before := unbound c own
    rw [ends c t bound] at before
    cases before

theorem bound_of_discardAll {rs : List WeakReference} {d : Nat} {t : ObjectRef}
    (bound : (s.discardAll rs).cell d = .bound t) : s.cell d = .bound t := by
  rw [cell_discardAll] at bound
  split at bound
  · cases bound
  · exact bound

theorem isBound_discardAll {rs : List WeakReference} {r : WeakReference} (taken : r ∈ rs) :
    (s.discardAll rs).isBound r = false := by
  rw [isBound_eq_false_iff]
  intro c own
  rw [cell_discardAll, if_pos ⟨r, taken, own⟩]
  rfl

theorem mem_pinned_disarm (q : Nat) (h : HandleId) :
    h ∈ (s.disarm roots r).pinned q ↔
      h ∈ s.pinned q ∧ ¬ (s.isBound r = true ∧ q = roots ∧ h = r.id) := by
  unfold disarm
  split
  · rename_i b binding
    rw [pinned_emit, mem_pinned_supersede]
    simp [isBound, binding]
  · rename_i empty
    simp [isBound, empty]

theorem mem_pinned_discard (q : Nat) (h : HandleId) :
    h ∈ (s.discard r).pinned q ↔ h ∈ s.pinned q ∧
      ¬ ∃ b, r.binding = some b ∧ (s.cell b.cell).isBound = true ∧ q = b.pins ∧ h = r.id := by
  unfold discard
  split
  · rename_i b binding
    rw [mem_pinned_supersede]
    simp [binding]
  · rename_i empty
    simp [empty]

/-- Letting go of references that do not share cells ends the pins of those that are bound. -/
theorem mem_pinned_discardAll {rs : List WeakReference}
    (apart : ∀ a ∈ rs, ∀ b ∈ rs, ∀ c, a.cell? = some c → b.cell? = some c → a = b)
    (q : Nat) (h : HandleId) : h ∈ (s.discardAll rs).pinned q ↔ h ∈ s.pinned q ∧
      ¬ ∃ r ∈ rs, ∃ b, r.binding = some b ∧ (s.cell b.cell).isBound = true ∧ q = b.pins ∧
        h = r.id := by
  induction rs generalizing s with
  | nil => simp [discardAll]
  | cons first rest ih =>
    have apart' : ∀ a ∈ rest, ∀ b ∈ rest, ∀ c, a.cell? = some c → b.cell? = some c → a = b :=
      fun a ha b hb => apart a (List.mem_cons_of_mem _ ha) b (List.mem_cons_of_mem _ hb)
    have step : s.discardAll (first :: rest) = (s.discard first).discardAll rest := rfl
    rw [step, ih (s.discard first) apart', mem_pinned_discard]
    constructor
    · rintro ⟨⟨pinned, not_first⟩, not_rest⟩
      refine ⟨pinned, ?_⟩
      rintro ⟨r, listed, b, binding, bound, set, named⟩
      rcases List.mem_cons.mp listed with same | later
      · subst same
        exact not_first ⟨b, binding, bound, set, named⟩
      · by_cases shared : first.cell? = some b.cell
        · have mine : r.cell? = some b.cell := WeakReference.cell?_of_binding binding
          have same := apart first List.mem_cons_self r listed b.cell shared mine
          subst same
          exact not_first ⟨b, binding, bound, set, named⟩
        · refine not_rest ⟨r, later, b, binding, ?_, set, named⟩
          rw [cell_discard, if_neg shared]
          exact bound
    · rintro ⟨pinned, none_of⟩
      refine ⟨⟨pinned, ?_⟩, ?_⟩
      · rintro ⟨b, binding, bound, set, named⟩
        exact none_of ⟨first, List.mem_cons_self, b, binding, bound, set, named⟩
      · rintro ⟨r, later, b, binding, bound, set, named⟩
        rw [cell_discard] at bound
        split at bound
        · cases bound
        · exact none_of ⟨r, List.mem_cons_of_mem _ later, b, binding, bound, set, named⟩

theorem size_cells_disarm : (s.disarm roots r).cells.size = s.cells.size := by
  unfold disarm
  split
  · exact s.size_cells_supersede _ _ _
  · rfl

theorem size_cells_discard : (s.discard r).cells.size = s.cells.size := by
  unfold discard
  split
  · exact s.size_cells_supersede _ _ _
  · rfl

theorem size_cells_discardAll (rs : List WeakReference) :
    (s.discardAll rs).cells.size = s.cells.size := by
  induction rs generalizing s with
  | nil => rfl
  | cons r rest ih => exact (ih (s.discard r)).trans (s.size_cells_discard r)

end References

end Session

end WeakRefs
