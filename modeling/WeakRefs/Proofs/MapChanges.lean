import WeakRefs.Proofs.KeptFinalizers

/-!
# What becomes of maps

A move changes one map at most. An entry leaves its map because a report named it, with the whole
map, or by an operation on this very map; a handle comes to the dead list by a report only.
-/

namespace WeakRefs

namespace Session
variable (s : Session) {x : Nat} {map : WeakValueMap}

theorem modifyMap_eq (here : s.map? x = some map) (f : WeakValueMap → WeakValueMap) :
    s.modifyMap x f = s.setMap x (some (f map)) := by
  unfold modifyMap setMap
  congr 1
  apply Array.ext_getElem?
  intro y
  have at_x : s.maps[x]? = some (some map) := Option.join_eq_some_iff.mp here
  rw [Array.getElem?_modify, Array.getElem?_setIfInBounds]
  by_cases same : x = y
  · subst same
    rw [if_pos rfl, if_pos rfl, if_pos (s.lt_size_of_map? here), at_x]
    rfl
  · rw [if_neg same, if_neg same]

theorem modifyMap_of_gone (gone : s.map? x = none) (f : WeakValueMap → WeakValueMap) :
    s.modifyMap x f = s := by
  unfold modifyMap
  congr 1
  apply Array.ext_getElem?
  intro y
  rw [Array.getElem?_modify]
  split
  · rename_i same
    subst same
    unfold map? at gone
    cases slot : s.maps[x]? with
    | none => rfl
    | some entry =>
      rw [slot] at gone
      cases entry with
      | none => rfl
      | some map => cases gone
  · rfl

theorem entry?_eq_some_iff {key : String} {r : WeakReference} :
    s.entry? x key = some r ↔ ∃ map, s.map? x = some map ∧ map.entries.get? key = some r :=
  Option.bind_eq_some_iff

end Session

/-- What one move makes of map `x`. -/
inductive MapStep (t : Tag) (m : Moment) (x : Nat) (map : WeakValueMap) :
    Option WeakValueMap → Prop where
  | report {key : String} {handle : HandleId} : .report x key handle ∈ m.flight →
    MapStep t m x map (some (map.report key handle))
  | prune : MapStep t m x map (some map.prune.1)
  | drop : MapStep t m x map none
  | thin {keep : String → WeakReference → Bool} : t = .thin x →
    MapStep t m x map (some { map with entries := map.entries.filter keep })
  | place {key : String} {ref : WeakReference} : t = .arrive (.entry x key) →
    MapStep t m x map (some { map with entries := map.entries.insert key ref })

/-- What a move makes of the maps: one of them changes, or an empty one is made. -/
inductive Reshapes (t : Tag) (m : Moment) (s' : Session) : Prop where
  | same : s'.maps = m.session.maps → Reshapes t m s'
  | set {x : Nat} {map : WeakValueMap} {after : Option WeakValueMap} :
    m.session.map? x = some map → MapStep t m x map after →
    s'.maps = m.session.maps.setIfInBounds x after → Reshapes t m s'
  | opened : s'.maps = m.session.maps.push (some {}) → Reshapes t m s'

namespace Reshapes
variable {t : Tag} {m : Moment} {s' : Session} {x : Nat} {map' : WeakValueMap}

theorem map?_same {s : Session} (same : s'.maps = s.maps) (x : Nat) : s'.map? x = s.map? x := by
  unfold Session.map?
  rw [same]

/-- A map that is there was there before, as it is or otherwise, or it is new. -/
theorem before (reshapes : Reshapes t m s') (there : s'.map? x = some map') :
    (x = m.session.maps.size ∧ map' = {}) ∨ m.session.map? x = some map' ∨
      ∃ map, m.session.map? x = some map ∧ MapStep t m x map (some map') := by
  cases reshapes with
  | same maps => exact Or.inr (Or.inl ((map?_same maps x).symm.trans there))
  | @set y map after here step maps =>
    have view := map?_same (s := m.session.setMap y after) maps x
    rw [view, Session.map?_setMap] at there
    split at there
    · rename_i this_map
      rw [this_map.1] at here step
      rw [there] at step
      exact Or.inr (Or.inr ⟨map, here, step⟩)
    · exact Or.inr (Or.inl there)
  | opened maps =>
    unfold Session.map? at there
    rw [maps, Array.getElem?_push] at there
    split at there
    · rename_i last
      cases there
      exact Or.inl ⟨last, rfl⟩
    · exact Or.inr (Or.inl there)

theorem stays (reshapes : Reshapes t m s') {map : WeakValueMap}
    (here : m.session.map? x = some map) :
    s'.map? x = some map ∨ ∃ after, MapStep t m x map after ∧ s'.map? x = after := by
  cases reshapes with
  | same maps => exact Or.inl ((map?_same maps x).trans here)
  | @set y map' after there step maps =>
    have view := map?_same (s := m.session.setMap y after) maps x
    rw [view, Session.map?_setMap]
    split
    · rename_i this_map
      rw [this_map.1, here] at there
      cases there
      exact Or.inr ⟨after, this_map.1 ▸ step, rfl⟩
    · exact Or.inl here
  | opened maps =>
    have inside := m.session.lt_size_of_map? here
    left
    unfold Session.map?
    rw [maps, Array.getElem?_push, if_neg (Nat.ne_of_lt inside)]
    exact here

theorem size_le (reshapes : Reshapes t m s') : m.session.maps.size ≤ s'.maps.size := by
  cases reshapes with
  | same maps => exact Nat.le_of_eq (congrArg Array.size maps).symm
  | set _ _ maps => simp [maps]
  | opened maps => simp [maps]

/-- Map `x` is changed, if it is there. -/
theorem modify {s : Session} {hand : Option WeakReference} {running : List Action}
    {flight : List Finalizer} {f : WeakValueMap → WeakValueMap}
    (same : s'.maps = (s.modifyMap x f).maps)
    (step : ∀ map, MapStep t ⟨s, hand, running, flight⟩ x map (some (f map))) :
    Reshapes t ⟨s, hand, running, flight⟩ s' := by
  cases here : s.map? x with
  | none =>
    rw [s.modifyMap_of_gone here] at same
    exact .same same
  | some map =>
    rw [s.modifyMap_eq here] at same
    exact .set here (step map) same

end Reshapes

namespace Move
variable {t : Tag} {m m' : Moment}

theorem reshapes (move : Move t m m') : Reshapes t m m'.session := by
  obtain ⟨s, hand, running, flight⟩ := m
  cases move with
  | tornDown _ x =>
    refine .same ?_
    unfold Session.recordTornDown
    split <;> rfl
  | newMap _ => exact .opened rfl
  | reclaim _ here idle calm reclamation =>
    refine .same ?_
    dsimp only
    rw [Session.emitAll_eq]
    rfl
  | @report _ x key handle rest idle queue =>
    have queue : flight = _ := queue
    subst queue
    exact .modify (x := x) rfl fun _ => .report List.mem_cons_self
  | fire _ here idle queue =>
    exact .same ((s.logRun _).sameButBindings_endBinding _ _ _).maps
  | disarm _ here held => exact .same (s.sameButBindings_disarm _ _).maps
  | discard _ held => exact .same (s.sameButBindings_discard _).maps
  | clear _ here held binding bound dead => exact .same (s.sameButBindings_clearDead _ _ _).maps
  | @thin _ x map keep here unbound => exact .modify (x := x) rfl fun _ => .thin rfl
  | @prune _ x map here =>
    exact .set here .prune (congrArg (Array.setIfInBounds · x _)
      (s.sameButBindings_discardAll _).maps)
  | @dropMap _ x map here =>
    exact .set here .drop (congrArg (Array.setIfInBounds · x _)
      (s.sameButBindings_discardAll _).maps)
  | attach _ here held loose unbound calm received => exact .same (Moment.put_same _ _ _).maps
  | @place _ x map key ref here present vacant => exact .modify (x := x) rfl fun _ => .place rfl
  | _ => exact .same rfl

section Entries
variable {x : Nat} {key : String} {r : WeakReference}

/-- Whoever is an entry was one before, unless it comes now. -/
theorem entry_before (move : Move t m m') (there : m'.session.entry? x key = some r)
    (stays : t ≠ .arrive (.entry x key)) : m.session.entry? x key = some r := by
  obtain ⟨map', here', listed⟩ := (m'.session.entry?_eq_some_iff).mp there
  rw [Session.entry?_eq_some_iff]
  rcases move.reshapes.before here' with ⟨_, new⟩ | here | ⟨map, here, step⟩
  · rw [new] at listed
    cases listed
  · exact ⟨map', here, listed⟩
  · refine ⟨map, here, ?_⟩
    cases step with
    | report _ => exact listed
    | prune => exact ((map.get?_prune key r).mp listed).1
    | thin _ => exact (Table.get?_filter_eq_some_iff.mp listed).1
    | @place k ref tag =>
      have listed : (map.entries.insert k ref).get? key = some r := listed
      rw [Table.get?_insert, if_neg] at listed
      · exact listed
      · intro same
        exact stays (same ▸ tag)

/-- An entry stays where it is, unless the map goes or the dead list names the entry. -/
theorem entry_stays (move : Move t m m') (here : m.session.entry? x key = some r)
    (full : t ≠ .thin x) (stays : t ≠ .arrive (.entry x key)) :
    m'.session.entry? x key = some r ∨ m'.session.map? x = none ∨
      ∃ map, m.session.map? x = some map ∧ (key, r.id) ∈ map.dead := by
  obtain ⟨map, present, listed⟩ := (m.session.entry?_eq_some_iff).mp here
  have still {map' : WeakValueMap} (there : m'.session.map? x = some map')
      (listed : map'.entries.get? key = some r) : m'.session.entry? x key = some r :=
    (m'.session.entry?_eq_some_iff).mpr ⟨map', there, listed⟩
  rcases move.reshapes.stays present with there | ⟨after, step, there⟩
  · exact Or.inl (still there listed)
  · cases step with
    | report _ => exact Or.inl (still there listed)
    | prune =>
      by_cases reported : (key, r.id) ∈ map.dead
      · exact Or.inr (Or.inr ⟨map, present, reported⟩)
      · exact Or.inl (still there ((map.get?_prune key r).mpr ⟨listed, reported⟩))
    | drop => exact Or.inr (Or.inl there)
    | thin tag => exact absurd tag full
    | @place k ref tag =>
      refine Or.inl (still there ?_)
      change (map.entries.insert k ref).get? key = some r
      rw [Table.get?_insert, if_neg]
      · exact listed
      · intro same
        exact stays (same ▸ tag)

/-- Whoever is on a dead list was there before, or is reported now. -/
theorem dead_before (move : Move t m m') {map' : WeakValueMap}
    (there : m'.session.map? x = some map') {h : HandleId} (listed : (key, h) ∈ map'.dead) :
    (∃ map, m.session.map? x = some map ∧ (key, h) ∈ map.dead) ∨ .report x key h ∈ m.flight := by
  rcases move.reshapes.before there with ⟨_, new⟩ | here | ⟨map, here, step⟩
  · rw [new] at listed
    cases listed
  · exact Or.inl ⟨map', here, listed⟩
  · cases step with
    | report flies =>
      rcases List.mem_append.mp listed with before | now
      · exact Or.inl ⟨map, here, before⟩
      · cases List.mem_singleton.mp now
        exact Or.inr flies
    | prune => cases listed
    | thin _ => exact Or.inl ⟨map, here, listed⟩
    | place _ => exact Or.inl ⟨map, here, listed⟩

theorem dead_stays (move : Move t m m') {map map' : WeakValueMap}
    (here : m.session.map? x = some map) {h : HandleId} (listed : (key, h) ∈ map.dead)
    (there : m'.session.map? x = some map') :
    (key, h) ∈ map'.dead ∨ ∀ r, map'.entries.get? key = some r → r.id ≠ h := by
  rcases move.reshapes.stays here with same | ⟨after, step, same⟩
  · rw [there] at same
    cases same
    exact Or.inl listed
  · rw [there] at same
    subst same
    cases step with
    | report _ => exact Or.inl (List.mem_append_left _ listed)
    | prune =>
      right
      intro r kept named
      exact ((map.get?_prune key r).mp kept).2 (named ▸ listed)
    | thin _ => exact Or.inl listed
    | place _ => exact Or.inl listed

end Entries

theorem handles_le (sound : m.session.HeapsSound) (move : Move t m m') :
    m.session.handles ≤ m'.session.handles := by
  cases quiet : t.brings with
  | false => exact (move.noNew sound quiet).handles
  | true =>
    cases move with
    | newRef _ => exact Nat.le_succ _
    | take _ free => exact Nat.le_succ _
    | attach _ here held loose unbound calm received =>
      rw [(Moment.put_same _ _ _).handles]
      exact Nat.le_refl _
    | enlist _ here => exact Nat.le_refl _
    | place _ here map vacant => exact Nat.le_refl _
    | _ => cases quiet

theorem bound_stays (ownership : Ownership m) (move : Move t m m') {p : Place} {a : WeakReference}
    {b : Binding} {y : ObjectRef} (here : m.held p = some a) (binding : a.binding = some b)
    (bound : m.session.cell b.cell = .bound y) (calm : t ≠ .touch p) :
    m'.session.cell b.cell = .bound y ∨ .endBinding b.cell a.id ∈ m.flight ∨
      ∃ x key, p = .entry x key ∧ (m'.session.map? x = none ∨
        ∃ map, m.session.map? x = some map ∧ (key, a.id) ∈ map.dead) := by
  obtain ⟨s, hand, running, flight⟩ := m
  have mine : a.cell? = some b.cell := WeakReference.cell?_of_binding binding
  have bound : s.cell b.cell = .bound y := bound
  have other {q : Place} {r : WeakReference} (there : Moment.held ⟨s, hand, running, flight⟩ q =
    some r)
      (elsewhere : q ≠ p) : r.cell? ≠ some b.cell := by
    intro shared
    exact elsewhere (ownership.own q p r a b.cell there here shared mine)
  have apart {q : Place} (tag : t = .touch q) : q ≠ p := by
    intro same
    exact calm (same ▸ tag)
  cases move with
  | tornDown _ x =>
    left
    unfold Session.recordTornDown
    dsimp only
    split <;> exact bound
  | reclaim _ at_i idle none_flies reclamation =>
    left
    dsimp only
    rw [Session.emitAll_eq]
    exact bound
  | @fire _ i c cell handle rest at_i idle queue =>
    have queue : flight = _ := queue
    have cell_now := (s.logRun (.endBinding cell handle)).cell_endBinding c.heap.pins cell handle
      b.cell
    by_cases same : b.cell = cell
    · subst same
      have flies : .endBinding b.cell handle ∈ flight := by
        rw [queue]
        exact List.mem_cons_self
      have named := (ownership.waits b.cell handle (Or.inr flies)).2 p a here mine
      rw [named]
      exact Or.inr (Or.inl flies)
    · rw [if_neg same] at cell_now
      exact Or.inl (cell_now.trans bound)
  | @disarm _ i c q ref at_i held =>
    have cell_now := s.cell_disarm c.heap.pins ref b.cell
    rw [if_neg (other held (apart rfl))] at cell_now
    exact Or.inl (cell_now.trans bound)
  | @discard _ q ref held =>
    have cell_now := s.cell_discard ref b.cell
    rw [if_neg (other held (apart rfl))] at cell_now
    exact Or.inl (cell_now.trans bound)
  | @clear _ i c q ref b' target at_i held binding' bound' dead =>
    have cell_now := s.cell_clearDead c.heap.pins b'.cell ref.id b.cell
    rw [if_neg] at cell_now
    · exact Or.inl (cell_now.trans bound)
    · intro same
      exact other held (apart rfl) (WeakReference.cell?_eq_some_iff.mpr ⟨b', binding', same.symm⟩)
  | @prune _ x map present =>
    have cell_now := s.cell_discardAll map.prune.2 b.cell
    split at cell_now
    · rename_i shared
      obtain ⟨r, taken, its⟩ := shared
      obtain ⟨key, listed, reported⟩ := (map.mem_prune r).mp taken
      have there : Moment.held ⟨s, hand, running, flight⟩ (.entry x key) = some r :=
        s.entry?_eq_some_iff.mpr ⟨map, present, listed⟩
      have same_place := ownership.own p (.entry x key) a r b.cell here there mine its
      subst same_place
      rw [there] at here
      cases here
      exact Or.inr (Or.inr ⟨x, key, rfl, Or.inr ⟨map, present, reported⟩⟩)
    · exact Or.inl (cell_now.trans bound)
  | @dropMap _ x map present =>
    have inside := s.lt_size_of_map? present
    have cell_now := s.cell_discardAll map.references b.cell
    split at cell_now
    · rename_i shared
      obtain ⟨r, taken, its⟩ := shared
      obtain ⟨key, listed⟩ := (map.mem_references r).mp taken
      have there : Moment.held ⟨s, hand, running, flight⟩ (.entry x key) = some r :=
        s.entry?_eq_some_iff.mpr ⟨map, present, listed⟩
      have same_place := ownership.own p (.entry x key) a r b.cell here there mine its
      refine Or.inr (Or.inr ⟨x, key, same_place, Or.inl ?_⟩)
      change ((s.discardAll map.references).setMap x none).map? x = none
      rw [Session.map?_setMap, (s.sameButBindings_discardAll _).maps, if_pos ⟨rfl, inside⟩]
    · exact Or.inl (cell_now.trans bound)
  | attach _ at_i held loose unbound none_flies received =>
    left
    rw [cell_put_arrive, if_neg (Nat.ne_of_lt (ownership.inside p a b.cell here mine))]
    exact bound
  | _ => exact Or.inl bound

end Move

/-- No handle is reported before it is handed out. -/
structure Issued (m : Moment) : Prop where
  awaits : ∀ x key h, m.Awaits (.report x key h) → h.raw ≤ m.session.handles
  dead : ∀ x map key h, m.session.map? x = some map → (key, h) ∈ map.dead →
    h.raw ≤ m.session.handles

namespace Issued
variable {m m' : Moment}

theorem move (issued : Issued m) (ownership : Ownership m) {t : Tag} (move : Move t m m') :
    Issued m' := by
  have grown := move.handles_le ownership.heaps
  constructor
  · intro x key h waiting
    rcases move.awaits ownership.heaps waiting with waited | fresh | ⟨c, g, ends⟩
    · exact Nat.le_trans (issued.awaits x key h waited) grown
    · cases move with
      | receive _ here idle calm proper received =>
        cases fresh
        obtain ⟨ref, inHand, named⟩ := proper
        rw [← named]
        exact ownership.issued .hand ref inHand
      | _ => exact fresh.elim
    · cases ends
  · intro x map' key h there listed
    rcases move.dead_before there listed with ⟨map, here, before⟩ | flies
    · exact Nat.le_trans (issued.dead x map key h here before) grown
    · exact Nat.le_trans (issued.awaits x key h (Or.inr flies)) grown

theorem run {T : Tag → Prop} (issued : Issued m) (ownership : Ownership m) (moves : Moves T m m') :
    Issued m' :=
  moves.keeps ownership (fun _ ownership move issued => issued.move ownership move) issued

theorem empty : Issued ⟨{}, none, [], []⟩ := by
  constructor
  · intro x key h waiting
    rcases waiting with ⟨i, c, here, _⟩ | flies
    · simp [Session.collector?] at here
    · cases flies
  · intro x map key h there
    simp [Session.map?] at there

end Issued

end WeakRefs
