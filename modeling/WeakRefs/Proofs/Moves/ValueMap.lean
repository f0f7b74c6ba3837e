import WeakRefs.Proofs.Moves.Reference

/-!
# Operations on maps as strides

An operation on a map touches the entries of that map and no others. An entry leaves with its
binding ended: after a report, or because the operation found no value there.
-/

namespace WeakRefs

namespace Session

section Reading
variable (s : Session) (i : Nat)

theorem sameButBindings_read (r : WeakReference) : SameButBindings s (s.read i r).1 := by
  unfold read
  split
  · rename_i c b here binding
    split
    · exact .refl s
    · split
      · exact .refl s
      · exact (s.sameButBindings_clearDead _ _ _).trans ⟨rfl, rfl, rfl, rfl, rfl, rfl, rfl, rfl⟩
  · exact .refl s

/-- Reading may end a binding and makes none. -/
theorem bound_of_read {r : WeakReference} {d : Nat} {t : ObjectRef}
    (bound : (s.read i r).1.cell d = .bound t) : s.cell d = .bound t := by
  unfold read at bound
  split at bound
  · rename_i c b here binding
    split at bound
    · exact bound
    · split at bound
      · exact bound
      · rw [cell_emit, cell_clearDead] at bound
        split at bound
        · have unbound := (s.cell b.cell).isBound_clear
          rw [bound] at unbound
          cases unbound
        · exact bound
  · exact bound

theorem sameButBindings_sweepEntries (pairs : List (String × WeakReference)) :
    SameButBindings s (s.sweepEntries i pairs).1 := by
  induction pairs generalizing s with
  | nil => exact .refl s
  | cons pair rest ih =>
    obtain ⟨key, r⟩ := pair
    have found := s.sameButBindings_read i r
    unfold sweepEntries
    dsimp only
    split
    · exact found.trans (ih _)
    · exact found.trans (((s.read i r).1.sameButBindings_discard r).trans (ih _))

theorem bound_of_sweepEntries {pairs : List (String × WeakReference)} {d : Nat} {t : ObjectRef}
    (bound : (s.sweepEntries i pairs).1.cell d = .bound t) : s.cell d = .bound t := by
  induction pairs generalizing s with
  | nil => exact bound
  | cons pair rest ih =>
    obtain ⟨key, r⟩ := pair
    unfold sweepEntries at bound
    dsimp only at bound
    split at bound
    · exact s.bound_of_read i (ih _ bound)
    · exact s.bound_of_read i (bound_of_discard _ r (ih _ bound))

/-- Whoever was swept has let go. -/
theorem unbound_of_swept {pairs : List (String × WeakReference)} {key : String}
    (swept : key ∈ (s.sweepEntries i pairs).2) :
    ∃ r, (key, r) ∈ pairs ∧ (s.sweepEntries i pairs).1.isBound r = false := by
  induction pairs generalizing s with
  | nil => cases swept
  | cons pair rest ih =>
    obtain ⟨first, r⟩ := pair
    unfold sweepEntries at swept ⊢
    dsimp only at swept ⊢
    split at swept
    · obtain ⟨q, listed, unbound⟩ := ih _ swept
      exact ⟨q, List.mem_cons_of_mem _ listed, unbound⟩
    · rcases List.mem_cons.mp swept with same | later
      · refine ⟨r, ?_, ?_⟩
        · rw [same]
          exact List.mem_cons_self
        · apply isBound_of_ends (s := (s.read i r).1.discard r)
          · intro d t bound
            exact bound_of_sweepEntries _ i bound
          · exact isBound_discard _ r
      · obtain ⟨q, listed, unbound⟩ := ih _ later
        exact ⟨q, List.mem_cons_of_mem _ listed, unbound⟩

end Reading

/-- A pruning as what it writes: the map, the cells and pins of whom it takes out, and one event. -/
theorem pruneMap_eq {s : Session} {m : Nat} {map : WeakValueMap} (here : s.map? m = some map) :
    s.pruneMap m = { s with
      maps := s.maps.setIfInBounds m (some map.prune.1)
      cells := (s.discardAll map.prune.2).cells
      pinSets := (s.discardAll map.prune.2).pinSets
      journal := if map.prune.2.isEmpty then s.journal
        else s.journal.push (.pruned map.prune.2.length) } := by
  unfold pruneMap
  rw [here]
  dsimp only
  rw [discardAll_congr rfl rfl map.prune.2]
  split <;> rfl

theorem pruneMap_frame (s : Session) (m : Nat) : s.pruneMap m = { s with
    maps := (s.pruneMap m).maps
    cells := (s.pruneMap m).cells
    pinSets := (s.pruneMap m).pinSets
    journal := (s.pruneMap m).journal } := by
  cases here : s.map? m with
  | none =>
    unfold pruneMap
    rw [here]
  | some map => rw [pruneMap_eq here]

theorem collector?_pruneMap (s : Session) (m j : Nat) :
    (s.pruneMap m).collector? j = s.collector? j := by
  rw [pruneMap_frame]
  rfl

theorem handles_pruneMap (s : Session) (m : Nat) : (s.pruneMap m).handles = s.handles := by
  rw [pruneMap_frame]

theorem alive_pruneMap (s : Session) (m : Nat) : (s.pruneMap m).alive = s.alive := by
  rw [pruneMap_frame]

theorem map?_pruneMap {s : Session} {m : Nat} {map : WeakValueMap}
    (here : s.map? m = some map) : (s.pruneMap m).map? m = some map.prune.1 := by
  rw [pruneMap_eq here]
  exact (s.map?_setMap m m _).trans (if_pos ⟨rfl, s.lt_size_of_map? here⟩)

theorem entries?_pruneMap {s : Session} {m : Nat} {map : WeakValueMap}
    (here : s.map? m = some map) : (s.pruneMap m).entries? m = some map.prune.1.entries := by
  unfold entries?
  rw [map?_pruneMap here]
  rfl

/-- An entry that pruning leaves was there, and unreported. -/
theorem entry?_of_pruneMap {s : Session} {m : Nat} {key : String} {r : WeakReference}
    (left : Session.entry? (s.pruneMap m) m key = some r) :
    s.entry? m key = some r ∧ ∀ map, s.map? m = some map → (key, r.id) ∉ map.dead := by
  cases present : s.map? m with
  | none =>
    unfold pruneMap entry? at left
    rw [present] at left
    dsimp only at left
    rw [present] at left
    cases left
  | some map =>
    rw [entry?_eq, entries?_pruneMap present] at left
    obtain ⟨there, unreported⟩ := (map.get?_prune key r).mp left
    refine ⟨?_, fun map' same => ?_⟩
    · rw [ entry?, present]
      exact there
    · cases same
      exact unreported

/-- Pruning binds nothing. -/
theorem target?_of_pruneMap {s : Session} {m : Nat} {r : WeakReference} {t : ObjectRef}
    (target : (s.pruneMap m).target? r = some t) : s.target? r = some t := by
  cases present : s.map? m with
  | none =>
    unfold pruneMap at target
    rwa [present] at target
  | some map =>
    obtain ⟨d, mine, bound⟩ := (target?_eq_some_iff _ _).mp target
    rw [pruneMap_eq present] at bound
    exact (target?_eq_some_iff _ _).mpr ⟨d, mine, bound_of_discardAll s bound⟩

section Maps
variable {T : Tag → Prop} (free : T .free) {s : Session} {i m : Nat} {key : String}
include free

theorem pruneMap_strides : Strides T ⟨s, none, [], []⟩ ⟨s.pruneMap m, none, [], []⟩ := by
  unfold pruneMap
  split
  · exact .refl
  · rename_i map here
    have same := s.sameButBindings_discardAll map.prune.2
    have pruned := Strides.quiet free (Move.prune ⟨s, none, [], []⟩ here)
      (.of_refs same.refs (news_of_journal (s.journal_discardAll _)) same.alive)
    dsimp only
    split
    · exact pruned
    · exact pruned.trans (.quiet free (Move.remark _ (.pruned _) rfl)
        (.of_refs rfl (news_remark _ rfl) rfl))

variable (touches : ∀ r, T (.touch (.ref r)))

section Get
variable (touch : T (.touch (.entry m key)))
include touches touch

theorem mapGet_strides : Strides T ⟨s, none, [], []⟩ ⟨(s.mapGet i m key).1, none, [], []⟩ := by
  have pruned := pruneMap_strides (s := s) (m := m) free
  unfold mapGet
  split
  · exact .refl
  · dsimp only
    split
    · exact pruned
    · rename_i r here
      have found := object_strides (i := i) touch free touches (.entry m key) here
      exact pruned.trans (found.trans (pruneMap_strides free))

end Get

section Update
variable (touch : ∀ key, T (.touch (.entry m key)))
include touch

omit free in
theorem sweepEntries_strides {pairs : List (String × WeakReference)}
    (listed : ∀ key r, (key, r) ∈ pairs → s.entry? m key = some r) :
    Strides T ⟨s, none, [], []⟩ ⟨(s.sweepEntries i pairs).1, none, [], []⟩ := by
  induction pairs generalizing s with
  | nil => exact .refl
  | cons pair rest ih =>
    obtain ⟨key, r⟩ := pair
    have here := listed key r List.mem_cons_self
    have same := s.sameButBindings_read i r
    have found : Strides T ⟨s, none, [], []⟩ ⟨(s.read i r).1, none, [], []⟩ :=
      read_strides (touch key) here
    unfold sweepEntries
    dsimp only
    split
    · refine found.trans (ih ?_)
      intro k q later
      exact (same.entry? m k).trans (listed k q (List.mem_cons_of_mem _ later))
    · have still : Moment.held ⟨(s.read i r).1, none, [], []⟩ (.entry m key) = some r :=
        (same.entry? m key).trans here
      have let_go := (s.read i r).1.sameButBindings_discard r
      have discarded := Strides.quiet (touch key) (Move.discard ⟨_, none, [], []⟩ still)
        (.of_same let_go ((s.read i r).1.journal_discard r))
      refine found.trans (discarded.trans (ih ?_))
      intro k q later
      have same' := same.trans let_go
      exact (same'.entry? m k).trans (listed k q (List.mem_cons_of_mem _ later))

variable (thin : T (.thin m))
include thin

theorem mapUpdate_strides : Strides T ⟨s, none, [], []⟩ ⟨s.mapUpdate i m, none, [], []⟩ := by
  have pruned := pruneMap_strides (s := s) (m := m) free
  unfold mapUpdate
  split
  · exact .refl
  dsimp only
  split
  · exact pruned
  rename_i map here
  generalize s.pruneMap m = t at pruned here
  have listed : ∀ key r, (key, r) ∈ map.entries.pairs → t.entry? m key = some r := by
    intro k r pair
    unfold entry?
    rw [here]
    exact Table.get?_eq_some_iff.mpr pair
  have swept := sweepEntries_strides (i := i) touch listed
  have same := t.sameButBindings_sweepEntries i map.entries.pairs
  have unbound (k : String) (ref : WeakReference) (present : map.entries.get? k = some ref)
      (gone : (!(t.sweepEntries i map.entries.pairs).2.contains k) = false) :
      (t.sweepEntries i map.entries.pairs).1.isBound ref = false := by
    have named : k ∈ (t.sweepEntries i map.entries.pairs).2 := by simpa using gone
    obtain ⟨r, pair, swept⟩ := t.unbound_of_swept i named
    have same_ref := Table.get?_eq_some_iff.mpr pair
    rw [present] at same_ref
    cases same_ref
    exact swept
  have thinned := Strides.quiet thin (Move.thin
    ⟨(t.sweepEntries i map.entries.pairs).1, none, [], []⟩ ((same.map? m).trans here) unbound)
    (.of_refs rfl rfl rfl)
  split
  · exact pruned.trans (swept.trans thinned)
  · exact pruned.trans (swept.trans (thinned.trans (.quiet free (Move.remark _ (.swept _) rfl)
      (.of_refs rfl (news_remark _ rfl) rfl))))

end Update

section Remove
variable (touch : T (.touch (.entry m key))) (thin : T (.thin m))
include touch thin

theorem mapRemove_strides : Strides T ⟨s, none, [], []⟩ ⟨(s.mapRemove i m key).1, none, [],
    []⟩ := by
  have pruned := pruneMap_strides (s := s) (m := m) free
  unfold mapRemove
  split
  · exact .refl
  rename_i c collector
  dsimp only
  split
  · exact pruned
  rename_i r here
  have collector' := (s.collector?_pruneMap m i).trans collector
  generalize s.pruneMap m = t at pruned here collector'
  have same := t.sameButBindings_read i r
  have found : Strides T ⟨t, none, [], []⟩ ⟨(t.read i r).1, none, [], []⟩ := read_strides touch here
  have still : Session.entry? (t.read i r).1 m key = some r := (same.entry? m key).trans here
  obtain ⟨map, present, stands⟩ := Option.bind_eq_some_iff.mp still
  exact pruned.trans (found.trans (.single (.remove ⟨(t.read i r).1, none, [], []⟩ touch thin
    ((same.collector? i).trans collector') present stands)))

end Remove

section Insert
variable (hold : T (.touch .hand)) (take : T (.arrive .hand))
include touches hold take

omit free hold take touches in
variable (key) in
/-- A fresh entry replaces the one that stood there, whose binding is disarmed first. -/
theorem placeEntry_strides (ref : WeakReference) {c : Collector} {map : WeakValueMap}
    (collector : s.collector? i = some c) (here : s.map? m = some map)
    (touch : T (.touch (.entry m key))) (settle : T (.arrive (.entry m key))) :
    Strides T ⟨s, some ref, [], []⟩
      ⟨s.placeEntry c.heap.pins m key ref, none, [], []⟩ := by
  unfold placeEntry
  dsimp only
  split
  · rename_i previous stands
    obtain ⟨map', present, listed⟩ := Option.bind_eq_some_iff.mp stands
    exact .single (.replace ⟨s, some ref, [], []⟩ touch settle collector rfl present listed)
  · rename_i vacant
    refine .quiet settle (Move.place ⟨_, some ref, [], []⟩ rfl here ?_) (.of_refs rfl rfl rfl)
    intro q listed
    unfold entry? at vacant
    rw [here, Option.bind_some, listed] at vacant
    cases vacant

theorem mapInsert_strides (value : ObjectRef) (bind : T (.bind i ⟨s.handles + 1⟩ value))
    (report : T (.define (.report m key ⟨s.handles + 1⟩)))
    (settle : (s.mapInsert i m key value).2 = .ok () →
      T (.touch (.entry m key)) ∧ T (.arrive (.entry m key))) :
    Strides T ⟨s, none, [], []⟩ ⟨(s.mapInsert i m key value).1, none, [], []⟩ := by
  have pruned := pruneMap_strides (s := s) (m := m) free
  rw [← s.handles_pruneMap m] at bind report
  unfold mapInsert at settle ⊢
  split
  · rename_i c map collector here
    rw [collector, here] at settle
    have pins : (s.pruneMap m).pinsOf i = some c.heap.pins := by
      unfold pinsOf
      rw [collector?_pruneMap, collector]
      rfl
    have entries := entries?_pruneMap here
    dsimp only at settle ⊢
    generalize s.pruneMap m = t at pruned pins entries bind report settle
    have named {r : WeakReference} (made : (t.bindNew (.map m) i value).2 = .ok r) :=
      t.id_of_bindNew (.map m) made
    have made := bindNew_strides (s := t) (i := i) free (.map m) hold take value bind
    have pins' := (pinsOf_bind (s := t.freshHandle.1) (i := i) (.map m) { id := t.freshHandle.2 }
      value i).trans pins
    have entries' := ((stableView_entries? m).bindNew t i value).trans entries
    change (t.bindNew (.map m) i value).1.pinsOf i = _ at pins'
    generalize t.bindNew (.map m) i value = bound at made pins' entries' settle named
    obtain ⟨u, answer⟩ := bound
    cases answer with
    | error e => exact pruned.trans made
    | ok r =>
      have report : T (.define (.report m key r.id)) := (named rfl).symm ▸ report
      have reported := define_strides (s := u) (i := i) free touches (some r) (.map m) value
        report ⟨r, rfl, rfl⟩
      have pins'' := (pinsOf_define (s := u) (i := i) (.map m) value (.report m key r.id) i).trans
        pins'
      have entries'' := ((stableView_entries? m).define u i value (.report m key r.id)).trans
        entries'
      dsimp only at settle ⊢
      generalize u.define (.map m) i value (.report m key r.id) = defined
        at reported pins'' entries'' settle
      obtain ⟨v, answer⟩ := defined
      refine pruned.trans (made.trans (reported.trans ?_))
      cases answer with
      | error e =>
        have discarded := Strides.quiet hold (Move.discard ⟨v, some r, [], []⟩ (p := .hand) rfl)
          (.of_same (v.sameButBindings_discard r) (v.journal_discard r))
        exact discarded.trans (.quiet free (Move.dropHand ⟨v.discard r, some r, [], []⟩ rfl
          (v.isBound_discard r)) (.of_refs rfl rfl rfl))
      | ok a =>
        obtain ⟨c', collector', same⟩ := Option.map_eq_some_iff.mp pins''
        obtain ⟨map', here', _⟩ := Option.map_eq_some_iff.mp entries''
        have placed := placeEntry_strides key r collector' here' (settle rfl).1
          (settle rfl).2
        rw [same] at placed
        exact placed
  · exact .refl

end Insert

end Maps

end Session

end WeakRefs
