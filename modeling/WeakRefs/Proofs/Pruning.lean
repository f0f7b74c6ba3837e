import WeakRefs.Proofs.Failure

/-!
# A pruning is a filter

An entry stays if no report names its key together with the handle of its reference. So it does not
matter in which order the reports stand, how often one is repeated, and what they say of absent
keys.
-/

namespace WeakRefs

namespace WeakValueMap

/-- The entries that no report names. -/
def remaining (m : WeakValueMap) : Table String WeakReference :=
  m.entries.filter fun key r => !m.dead.contains (key, r.id)

/-- A report names the entry of this reference. -/
def Loses (m : WeakValueMap) (r : WeakReference) : Prop :=
  ∃ key, m.entries.get? key = some r ∧ (key, r.id) ∈ m.dead

theorem get?_remaining (m : WeakValueMap) (key : String) (r : WeakReference) :
    m.remaining.get? key = some r ↔ m.entries.get? key = some r ∧ (key, r.id) ∉ m.dead := by
  unfold remaining
  rw [Table.get?_filter_eq_some_iff]
  simp

theorem prune_eq_remaining (m : WeakValueMap) :
    m.prune.1 = { entries := m.remaining, dead := [] } := by
  have entries : (evict m.entries m.dead).1 = m.remaining :=
    Table.ext_pairs (pairs_evict m.dead m.entries)
  exact congrArg (fun entries => ({ entries } : WeakValueMap)) entries

theorem length_prune (m : WeakValueMap) : m.prune.2.length = m.size - m.remaining.size := by
  have all : (m.prune.2 ++ m.prune.1.entries.values).length = m.entries.values.length :=
    (values_evict m.dead m.entries).length_eq
  rw [prune_eq_remaining] at all
  simp only [Table.values, List.length_append, List.length_map] at all
  unfold size Table.size
  omega

end WeakValueMap

namespace Session
variable {s : Session} {x : Nat} {map : WeakValueMap}

/-- No two entries of a map share a cell. -/
def Unshared (s : Session) (x : Nat) : Prop :=
  ∀ k l a b c, s.entry? x k = some a → s.entry? x l = some b → a.cell? = some c →
    b.cell? = some c → k = l

/-- Put other reports on the dead list of a map. -/
def setReports (s : Session) (x : Nat) (reports : List (String × HandleId)) : Session :=
  s.modifyMap x fun map => { map with dead := reports }

theorem entry?_setReports (y : Nat) (reports : List (String × HandleId)) (key : String) :
    Session.entry? (s.setReports y reports) x key = s.entry? x key := by
  unfold setReports entry?
  rw [map?_modifyMap]
  split
  · cases s.map? x <;> rfl
  · rfl

theorem unshared_after (ops : List Op) (x y : Nat) (reports : List (String × HandleId)) :
    ((Session.after {} ops).setReports y reports).Unshared x := by
  intro k l a b c here there mine its
  rw [entry?_setReports] at here there
  have same := (ownership_after ops).own (.entry x k) (.entry x l) a b c here there mine its
  exact (Place.entry.inj same).2

theorem Unshared.distinct (unshared : s.Unshared x) : s.DistinctCells x := by
  intro k l a b c here there mine its
  cases unshared k l a b c here there mine its
  exact Option.some.inj (here.symm.trans there)

/-- What a pruning of map `x`, whose contents are `map`, makes of a session. -/
structure Prunes (x : Nat) (map : WeakValueMap) (s s' : Session) : Prop where
  /-- The entries that no report names stay, as they stood, and no report does. -/
  contents : s'.map? x = some { entries := map.remaining, dead := [] }
  entry : ∀ key r, s'.entry? x key = some r ↔ s.entry? x key = some r ∧ (key, r.id) ∉ map.dead
  /-- The bindings of those that stay are as they were. -/
  kept : ∀ key r c, s'.entry? x key = some r → r.cell? = some c → s'.cell c = s.cell c
  /-- Those that go have let go of their cells. -/
  gone : ∀ r c, map.Loses r → r.cell? = some c → s'.cell c = .superseded
  cell : ∀ c, (∀ r, map.Loses r → r.cell? ≠ some c) → s'.cell c = s.cell c
  /-- The pins of those that go and were bound end, and no others. -/
  pinned : ∀ P h, h ∈ s'.pinned P ↔ h ∈ s.pinned P ∧
    ¬ ∃ r b, map.Loses r ∧ r.binding = some b ∧ s.isBound r = true ∧ b.pins = P ∧ r.id = h
  /-- How many went is on record, if any did. -/
  journal : s'.journal = s.journal ++
    if map.remaining.size = map.size then #[] else #[.pruned (map.size - map.remaining.size)]
  others : ∀ y, y ≠ x → s'.map? y = s.map? y
  rest : s' = { s with
    maps := s'.maps, cells := s'.cells, pinSets := s'.pinSets, journal := s'.journal }

section Filter
variable (present : s.map? x = some map)
include present

theorem journal_pruneMap : (s.pruneMap x).journal = s.journal ++
    if map.remaining.size = map.size then #[] else #[.pruned (map.size - map.remaining.size)] := by
  have smaller : map.remaining.size ≤ map.size := List.length_filter_le _ _
  have nobody : map.prune.2.isEmpty = true ↔ map.remaining.size = map.size := by
    rw [List.isEmpty_iff_length_eq_zero, map.length_prune]
    omega
  rw [pruneMap_eq present]
  dsimp only
  by_cases same : map.remaining.size = map.size
  · rw [if_pos (nobody.mpr same), if_pos same, Array.append_empty]
  · rw [if_neg (mt nobody.mp same), if_neg same, map.length_prune, Array.push_eq_append]

theorem map?_of_pruned :
    (s.pruneMap x).map? x = some { entries := map.remaining, dead := [] } :=
  (map?_pruneMap present).trans (congrArg some map.prune_eq_remaining)

theorem entry?_pruneMap (key : String) (r : WeakReference) :
    Session.entry? (s.pruneMap x) x key = some r ↔
      s.entry? x key = some r ∧ (key, r.id) ∉ map.dead := by
  unfold entry?
  rw [map?_of_pruned present, present]
  exact map.get?_remaining key r

theorem cell_of_lost {r : WeakReference} {c : Nat} (loses : map.Loses r) (its : r.cell? = some c) :
    (s.pruneMap x).cell c = .superseded := by
  rw [cell_pruneMap present, if_pos ⟨r, (map.mem_prune r).mpr loses, its⟩]

theorem cell_of_spared {c : Nat} (free : ∀ r, map.Loses r → r.cell? ≠ some c) :
    (s.pruneMap x).cell c = s.cell c := by
  rw [cell_pruneMap present, if_neg]
  rintro ⟨r, taken, its⟩
  exact free r ((map.mem_prune r).mp taken) its

variable (unshared : s.Unshared x)
include unshared

/-- Whoever goes and has the cell of an entry that stays has its key too, and so goes and stays. -/
theorem cell_of_kept {key : String} {r : WeakReference} {c : Nat}
    (stays : Session.entry? (s.pruneMap x) x key = some r) (mine : r.cell? = some c) :
    (s.pruneMap x).cell c = s.cell c := by
  obtain ⟨stood, unreported⟩ := (entry?_pruneMap present key r).mp stays
  refine cell_of_spared present fun q loses its => ?_
  obtain ⟨k, stands, reported⟩ := loses
  have there := s.entry?_eq_some_iff.mpr ⟨map, present, stands⟩
  cases unshared k key q r c there stood its mine
  cases there.symm.trans stood
  exact unreported reported

theorem mem_pinned_pruneMap (P : Nat) (h : HandleId) :
    h ∈ (s.pruneMap x).pinned P ↔ h ∈ s.pinned P ∧ ¬ ∃ r b, map.Loses r ∧ r.binding = some b ∧
      s.isBound r = true ∧ b.pins = P ∧ r.id = h := by
  rw [pinned_pruneMap_eq present, s.mem_pinned_discardAll (unshared.distinct.apart present)]
  refine and_congr_right fun _ => not_congr ⟨?_, ?_⟩
  · rintro ⟨r, taken, b, binding, was, set, named⟩
    exact ⟨r, b, (map.mem_prune r).mp taken, binding, (s.isBound_of_binding binding).trans was,
      set.symm, named.symm⟩
  · rintro ⟨r, b, loses, binding, was, set, named⟩
    exact ⟨r, (map.mem_prune r).mpr loses, b, binding, (s.isBound_of_binding binding).symm.trans
      was, set.symm,
      named.symm⟩

theorem pruneMap_prunes : Prunes x map s (s.pruneMap x) where
  contents := map?_of_pruned present
  entry := entry?_pruneMap present
  kept _ _ _ := cell_of_kept present unshared
  gone _ _ := cell_of_lost present
  cell _ := cell_of_spared present
  pinned := mem_pinned_pruneMap present unshared
  journal := journal_pruneMap present
  others := (pruneMap_keeps present).2.2.2.2
  rest := s.pruneMap_frame x

theorem pruneMap_setReports {reports : List (String × HandleId)}
    (same : ∀ e, e ∈ reports ↔ e ∈ map.dead) :
    (s.setReports x reports).pruneMap x = s.pruneMap x := by
  obtain ⟨map', there, entries, dead⟩ : ∃ map', (s.setReports x reports).map? x = some map' ∧
      map'.entries = map.entries ∧ map'.dead = reports := by
    refine ⟨{ map with dead := reports }, ?_, rfl, rfl⟩
    unfold setReports
    rw [map?_modifyMap, if_pos rfl, present]
    rfl
  obtain ⟨kept, taken⟩ := WeakValueMap.prune_congr entries (dead ▸ same)
  have let_go : (s.setReports x reports).discardAll map'.prune.2 = { s.setReports x reports with
      cells := (s.discardAll map.prune.2).cells
      pinSets := (s.discardAll map.prune.2).pinSets } := by
    have cells : (s.setReports x reports).cells = s.cells := rfl
    have pinSets : (s.setReports x reports).pinSets = s.pinSets := rfl
    rw [← (s.setReports x reports).discardAll_perm taken.symm (unshared.distinct.apart present)]
    exact discardAll_congr cells pinSets _
  have maps : (s.setReports x reports).maps.setIfInBounds x (some map.prune.1) =
      s.maps.setIfInBounds x (some map.prune.1) := by
    apply Array.ext_getElem?
    intro y
    unfold setReports modifyMap
    simp only [Array.getElem?_setIfInBounds, Array.getElem?_modify, Array.size_modify]
    split
    · rfl
    · rfl
  rw [pruneMap_eq there, pruneMap_eq present, kept, let_go, maps, taken.isEmpty_eq,
    taken.length_eq]
  rfl

end Filter

end Session

/-- A pruning leaves the entries that no report names, bound as they were. The pins of the others
end, and nothing else changes, in whatever order the reports come. -/
theorem pruning_is_filter {s : Session} {x : Nat} {map : WeakValueMap}
    (present : s.map? x = some map) (unshared : s.Unshared x) :
    Session.Prunes x map s (s.pruneMap x) ∧
      ∀ reports, (∀ e, e ∈ reports ↔ e ∈ map.dead) →
        (s.setReports x reports).pruneMap x = s.pruneMap x :=
  ⟨Session.pruneMap_prunes present unshared, fun _ => Session.pruneMap_setReports present unshared⟩

/-- The first of two bound entries is reported twice. Another report is of a reference that stood
under the key of the second before. -/
theorem pruning_of_repeated_reports : ∃ s map, s = (Session.after {} [.newHeap {}, .newHeap {},
      .alloc 0 .plain, .alloc 1 .plain, .newMap, .mapInsert 1 0 "a" ⟨0, 0⟩,
      .mapInsert 0 0 "b" ⟨0, 0⟩, .mapInsert 0 0 "b" ⟨0, 0⟩]).setReports 0
        [("b", ⟨2⟩), ("a", ⟨1⟩), ("c", ⟨7⟩), ("a", ⟨1⟩)] ∧
    s.map? 0 = some map ∧ s.Unshared 0 ∧ Session.Prunes 0 map s (s.pruneMap 0) ∧
    (s.setReports 0 [("c", ⟨7⟩), ("a", ⟨1⟩), ("b", ⟨2⟩)]).pruneMap 0 = s.pruneMap 0 ∧
    ⟨1⟩ ∈ s.pinned 1 ∧ ⟨1⟩ ∉ (s.pruneMap 0).pinned 1 ∧ ⟨3⟩ ∈ (s.pruneMap 0).pinned 0 ∧
    Session.entry? (s.pruneMap 0) 0 "a" = none ∧
    Option.map (·.id) (Session.entry? (s.pruneMap 0) 0 "b") = some ⟨3⟩ := by
  obtain ⟨s, run⟩ : ∃ s, s = (Session.after {} [.newHeap {}, .newHeap {},
    .alloc 0 .plain, .alloc 1 .plain, .newMap, .mapInsert 1 0 "a" ⟨0, 0⟩,
    .mapInsert 0 0 "b" ⟨0, 0⟩, .mapInsert 0 0 "b" ⟨0, 0⟩]).setReports 0
      [("b", ⟨2⟩), ("a", ⟨1⟩), ("c", ⟨7⟩), ("a", ⟨1⟩)] := ⟨_, rfl⟩
  obtain ⟨map, present, dead⟩ : ∃ map, s.map? 0 = some map ∧
      map.dead = [("b", ⟨2⟩), ("a", ⟨1⟩), ("c", ⟨7⟩), ("a", ⟨1⟩)] := by
    rw [run]
    exact ⟨_, rfl, rfl⟩
  have unshared : s.Unshared 0 := run ▸ Session.unshared_after _ _ _ _
  obtain ⟨prunes, order⟩ := pruning_is_filter present unshared
  have same := order [("c", ⟨7⟩), ("a", ⟨1⟩), ("b", ⟨2⟩)] fun e => by
    simp only [dead, List.mem_cons, List.not_mem_nil, or_false]
    tauto
  refine ⟨s, map, run, present, unshared, prunes, same, ?_⟩
  rw [run]
  decide +kernel

end WeakRefs
