import WeakRefs.Proofs.MapOperations

/-!
# Insertion

On a live value both finalizers are kept before the entry comes to its place; on a dead one both run
at once, and the entry is on the dead list when it comes.
-/

namespace WeakRefs

/-- Nobody has heard of a handle: it has not been reported, and no report of it waits. -/
structure NotInReports (h : HandleId) (m : Moment) : Prop where
  awaits : ∀ x key, ¬ m.Awaits (.report x key h)
  dead : ∀ x map key, m.session.map? x = some map → (key, h) ∉ map.dead

namespace NotInReports
variable {m m' : Moment} {h : HandleId}

theorem of_issued (issued : Issued m) : NotInReports m.session.freshHandle.2 m where
  awaits x key waits := absurd (issued.awaits x key _ waits) (Nat.not_succ_le_self _)
  dead x map key here listed :=
    absurd (issued.dead x map key _ here listed) (Nat.not_succ_le_self _)

theorem move (notIn : NotInReports h m) (sound : m.session.HeapsSound) {t : Tag}
    (move : Move t m m') (calm : ∀ x key, ¬ t.defines (.report x key h)) : NotInReports h m' where
  awaits x key waits := by
    rcases move.awaits sound waits with waited | fresh | ⟨_, _, same⟩
    · exact notIn.awaits x key waited
    · exact calm x key fresh
    · cases same
  dead x map' key there listed := by
    rcases move.dead_before there listed with ⟨map, here, before⟩ | flies
    · exact notIn.dead x map key here before
    · exact notIn.awaits x key (Or.inr flies)

end NotInReports

namespace Session
variable {s : Session} {i x : Nat} {key : String} {c : Collector} {r : WeakReference}

section Place
variable (roots : Nat)

theorem collectors_placeEntry : (s.placeEntry roots x key r).collectors = s.collectors := by
  unfold placeEntry
  dsimp only
  split
  · exact collectors_disarm s roots _
  · rfl

/-- Only the cell of the reference that makes room is touched. -/
theorem cell_placeEntry (d : Nat) : (s.placeEntry roots x key r).cell d =
    if (s.entry? x key).bind WeakReference.cell? = some d then .superseded else s.cell d := by
  unfold placeEntry
  dsimp only
  split
  · rename_i previous stands
    rw [stands, Option.bind_some]
    exact cell_disarm s roots previous d
  · rename_i vacant
    rw [vacant]
    rfl

theorem map?_placeEntry {map : WeakValueMap} (present : s.map? x = some map) :
    (s.placeEntry roots x key r).map? x =
      some { map with entries := map.entries.insert key r } := by
  unfold placeEntry modifyEntries
  dsimp only
  rw [map?_modifyMap, if_pos rfl]
  split
  · rename_i previous stands
    rw [(sameButBindings_disarm s roots previous).map? x, present]
    rfl
  · rw [present]
    rfl

theorem entry?_placeEntry {map : WeakValueMap} (present : s.map? x = some map) :
    Session.entry? (s.placeEntry roots x key r) x key = some r := by
  unfold entry?
  rw [map?_placeEntry roots present]
  exact (Table.get?_insert _ _ _ _).trans (if_pos rfl)

end Place

theorem bindNew_cases (here : s.collector? i = some c) (plain : c.IsPlain) (focus : Focus)
    {v : ObjectRef} (made : (s.bindNew focus i v).2 = .ok r) :
    ∃ b d, r.binding = some b ∧ b.runtime = c.heap.runtime ∧
      (s.bindNew focus i v).1.collector? i = some d ∧ d.heap.runtime = c.heap.runtime ∧
      d.heap.isLive v = c.heap.isLive v ∧
      (s.bindNew focus i v).1.cell b.cell =
        if c.heap.isLive v then .bound v else .cleared := by
  have here' : s.freshHandle.1.collector? i = some c := here
  unfold bindNew at made ⊢
  dsimp only at made ⊢
  rcases s.freshHandle.1.bind_cases here' focus { id := s.freshHandle.2 }
    (fun _ none => nomatch none) v with ⟨e, refused⟩ | ⟨c', ran, a, t, received, arrived, done⟩
  · rw [refused] at made
    cases made
  · rw [done] at made ⊢
    cases made
    have same : s.freshHandle.1.disarm c.heap.pins { id := s.freshHandle.2 } = s.freshHandle.1 :=
      rfl
    rw [same] at arrived
    have cell : (s.freshHandle.1.arrive i c' s.freshHandle.2 v ran a).cell s.cells.size =
        if ran then .cleared else .bound v :=
      (s.freshHandle.1.cell_arrive s.cells.size).trans (if_pos rfl)
    have there := collector?_setCollector_self here' c'
    have became : ∃ d, t.collector? i = some d ∧ d.heap.runtime = c'.heap.runtime ∧
        d.heap.isLive v = c'.heap.isLive v ∧
        t.cell s.cells.size = if ran then .cleared else .bound v := by
      have there : (s.freshHandle.1.arrive i c' s.freshHandle.2 v ran a).collector? i = some c' :=
        there
      rcases arrived with arrived | counted
      · rw [arrived]
        exact ⟨c', there, rfl, rfl, cell⟩
      · rw [counted, modifyHeap_eq there]
        exact ⟨_, collector?_setCollector_self there _, rfl, rfl, cell⟩
    obtain ⟨d, at_i, runtime, live, cell⟩ := became
    refine ⟨_, d, rfl, rfl, at_i, runtime.trans received.pins.2, live.trans ?_, cell.trans ?_⟩
    · rcases plain.receives received with ⟨_, heap, became, kept⟩ | ⟨_, became, _⟩
      · rw [became]
        exact Heap.isLive_define kept v
      · rw [became]
        rfl
    · rcases plain.receives received with ⟨waits, heap, _, kept⟩ | ⟨runs, _, dead⟩
      · rw [waits, Heap.isLive_of_kept kept]
        rfl
      · rw [runs, dead]
        rfl

/-- An insertion that succeeds makes a reference, has the value report it, and places it. -/
theorem mapInsert_cases {map : WeakValueMap} (here : s.collector? i = some c)
    (present : s.map? x = some map) {v : ObjectRef} (done : (s.mapInsert i x key v).2 = .ok ()) :
    ∃ r a, ((s.pruneMap x).bindNew (.map x) i v).2 = .ok r ∧
      (((s.pruneMap x).bindNew (.map x) i v).1.define (.map x) i v (.report x key r.id)).2 = .ok a ∧
      (s.mapInsert i x key v).1 = (((s.pruneMap x).bindNew (.map x) i v).1.define (.map x) i v
        (.report x key r.id)).1.placeEntry c.heap.pins x key r := by
  unfold mapInsert at done ⊢
  rw [here, present] at done ⊢
  dsimp only at done ⊢
  split
  · rename_i e refused
    rw [refused] at done
    cases done
  · rename_i r made
    rw [made] at done
    dsimp only at done
    refine ⟨r, ?_⟩
    split
    · rename_i e refused
      rw [refused] at done
      cases done
    · rename_i a defined
      exact ⟨a, made, defined, rfl⟩

end Session

section Self
variable {i x : Nat} {key : String} {s : Session} {c : Collector} {map : WeakValueMap}
variable {r : WeakReference} {v : ObjectRef}

/-- A reference in hand comes to its place with both finalizers kept. -/
theorem Mirrors.of_kept {b : Binding} {heap : Heap Finalizer} {a : Affiliation}
    (boundKept : BoundKept i ⟨s, some r, [], []⟩) (notIn : NotInReports r.id ⟨s, some r, [], []⟩)
    (here : s.collector? i = some c) (present : s.map? x = some map) (binding : r.binding = some b)
    (ofHeap : b.runtime = c.heap.runtime) (bound : s.cell b.cell = .bound v)
    (kept : c.heap.define v (.report x key r.id) = .kept heap a) (roots : Nat) :
    Mirrors i x key ⟨(s.setCollector i { c.advance with heap }).placeEntry roots x key r, none, [],
      []⟩ (some v) := by
  have received := Move.receive ⟨s, some r, [], []⟩ here rfl rfl (f := .report x key r.id)
    ⟨r, rfl, rfl⟩ (.kept kept)
  have boundKept' := boundKept.move received nofun
  have there := Session.collector?_setCollector_self here { c.advance with heap }
  have runtime : b.runtime = heap.runtime := ofHeap.trans (Heap.pins_of_kept kept).2.symm
  have ends : KeptInHeap i (.endBinding b.cell r.id) b.affiliation.kind v
      ⟨s.setCollector i { c.advance with heap }, some r, [], []⟩ := by
    rcases boundKept'.keptOnce _ .hand r b v there rfl binding runtime bound with inHeap | flies
    · exact inHeap
    · cases flies
  have reports : KeptInHeap i (.report x key r.id) a.kind v
      ⟨s.setCollector i { c.advance with heap }, some r, [], []⟩ :=
    .of_kept here kept (notIn.awaits x key) rfl List.not_mem_nil
  -- Both sit on the same value, which has one kind.
  have same_kind : a.kind = b.affiliation.kind := by
    obtain ⟨d, at_i, keptOnce⟩ := ends.keptBy
    obtain ⟨d', at_i', keptOnce'⟩ := reports.keptBy
    rw [at_i] at at_i'
    cases at_i'
    have kind := keptOnce.live
    rw [keptOnce'.live] at kind
    exact Option.some.inj kind
  rw [same_kind] at reports
  have bothKept : BothKept i x key r b v ⟨s.setCollector i { c.advance with heap }, some r, [],
    []⟩ := by
    refine ⟨binding, bound, ?_, ends, reports, fun map' present' => notIn.dead x map' key present'⟩
    intro d at_i
    have at_i : (s.setCollector i { c.advance with heap }).collector? i = some d := at_i
    rw [there] at at_i
    cases at_i
    exact runtime
  have present' : (s.setCollector i { c.advance with heap }).map? x = some map := present
  refine .bothKept (Session.entry?_placeEntry roots present') (bothKept.congr
    (Session.collectors_placeEntry roots) ?_ ?_)
  · rw [Session.cell_placeEntry, if_neg]
    · exact bound
    · intro shared
      obtain ⟨previous, stands, its⟩ := Option.bind_eq_some_iff.mp shared
      have mine := WeakReference.cell?_of_binding binding
      have same_place := boundKept'.ownership.own (.entry x key) .hand previous r b.cell stands rfl
        its
        mine
      cases same_place
  · intro map' there'
    rw [Session.map?_placeEntry roots present'] at there'
    cases there'
    exact ⟨map, present', rfl⟩

theorem Mirrors.of_dead (present : s.map? x = some map) (unbound : s.isBound r = false)
    (listed : (key, r.id) ∈ map.dead) (roots : Nat) :
    Mirrors i x key ⟨s.placeEntry roots x key r, none, [], []⟩ none := by
  refine .valueGone (Session.entry?_placeEntry roots present) ⟨Or.inl ?_, Or.inr ?_⟩
  · refine Session.isBound_of_ends (s := s) ?_ unbound
    intro d t bound
    rw [Session.cell_placeEntry] at bound
    split at bound
    · cases bound
    · exact bound
  · intro map' there
    have there : (s.placeEntry roots x key r).map? x = some map' := there
    rw [Session.map?_placeEntry roots present] at there
    cases there
    exact listed

theorem boundKept_bindNew (boundKept : BoundKept i ⟨s, none, [], []⟩)
    (issued : Issued ⟨s, none, [], []⟩) (focus : Focus) (made : (s.bindNew focus i v).2 = .ok r) :
    BoundKept i ⟨(s.bindNew focus i v).1, some r, [], []⟩ ∧
      NotInReports r.id ⟨(s.bindNew focus i v).1, some r, [], []⟩ := by
  have notIn : NotInReports s.freshHandle.2 ⟨s, none, [], []⟩ := .of_issued issued
  rw [← s.id_of_bindNew focus made] at notIn
  have moves := (Session.bindNew_strides (T := fun t => t ≠ .script i ∧
      ∀ y k, ¬ t.defines (.report y k r.id)) (s := s) (i := i) ⟨nofun, fun _ _ => id⟩ focus
    ⟨nofun, fun _ _ => id⟩ ⟨nofun, fun _ _ => id⟩ v ⟨nofun, fun _ _ => id⟩).moves
  rw [made] at moves
  refine moves.preserves (I := fun n => BoundKept i n ∧ NotInReports r.id n) ?_ ⟨boundKept, notIn⟩
  intro t n n' calm move both
  exact ⟨both.1.move move calm.1, both.2.move both.1.ownership.heaps move calm.2⟩

theorem Mirrors.of_due {b : Binding} {d : Collector} {w : Session} {roots : Nat}
    (present : s.map? x = some map) (binding : r.binding = some b)
    (cleared : s.cell b.cell = .cleared)
    (after : w = (s.setCollector i d).deliver (.map x) roots (.report x key r.id) ∨
      w = ((s.setCollector i d).deliver (.map x) roots (.report x key r.id)).modifyHeap i
        (·.countRun 1)) :
    Mirrors i x key ⟨w.placeEntry roots x key r, none, [], []⟩ none := by
  have delivered : ((s.setCollector i d).deliver (.map x) roots (.report x key r.id)).map? x =
      some (map.report key r.id) := by
    refine (Session.map?_modifyMap _ x x _).trans ((if_pos rfl).trans ?_)
    exact congrArg (Option.map _) present
  have there : w.map? x = some (map.report key r.id) ∧ w.cells = s.cells := by
    rcases after with after | counted
    · rw [after]
      exact ⟨delivered, rfl⟩
    · rw [counted]
      exact ⟨delivered, rfl⟩
  have unbound : w.isBound r = false := by
    rw [w.isBound_of_binding binding, Session.cell_congr there.2, cleared]
    rfl
  exact .of_dead there.1 unbound (List.mem_append_right _ List.mem_cons_self) roots

/-- An insertion that succeeds sets its key to the value if that is live, and else deletes it. -/
theorem Mirrors.after_mapInsert (boundKept : BoundKept i ⟨s, none, [], []⟩)
    (issued : Issued ⟨s, none, [], []⟩) (here : s.collector? i = some c)
    (present : s.map? x = some map) (done : (s.mapInsert i x key v).2 = .ok ()) :
    Mirrors i x key ⟨(s.mapInsert i x key v).1, none, [], []⟩
      (if s.isLiveIn i v then some v else none) := by
  obtain ⟨r, a, made, defined, session⟩ := Session.mapInsert_cases here present done
  have live : s.isLiveIn i v = c.heap.isLive v := by
    unfold Session.isLiveIn
    rw [here]
    rfl
  rw [session, live]
  have issued := issued.run boundKept.ownership (quiet_pruneMap s x)
  have boundKept := boundKept.pruneMap x
  have here := (s.collector?_pruneMap x i).trans here
  have entries := Session.entries?_pruneMap present
  generalize s.pruneMap x = t at made defined boundKept issued here entries
  obtain ⟨b, d, binding, ofHeap, at_i, runtime, same_live, cell⟩ :=
    Session.bindNew_cases here (boundKept.plain c here) (.map x) made
  obtain ⟨map', present', _⟩ := Option.map_eq_some_iff.mp
    (((Session.stableView_entries? x).bindNew t i v).trans entries)
  obtain ⟨boundKept, notIn⟩ := boundKept_bindNew boundKept issued (.map x) made
  rw [← same_live] at cell ⊢
  rw [← runtime] at ofHeap
  clear made
  generalize (t.bindNew (.map x) i v).1 = u at boundKept notIn at_i present' cell defined
  rcases u.define_cases at_i (.map x) v (.report x key r.id) with
    ⟨e, refused⟩ | ⟨d', ran, a', w, received, kept_or_ran, after⟩
  · rw [refused] at defined
    cases defined
  · rw [kept_or_ran]
    dsimp only
    rcases (boundKept.plain d at_i).receives received with
      ⟨waits, heap, became, kept⟩ | ⟨runs, became, dead⟩
    · subst waits
      have after : w = _ := after
      have live := Heap.isLive_of_kept kept
      rw [live] at cell ⊢
      rw [after, became]
      exact .of_kept boundKept notIn at_i present' binding ofHeap cell kept c.heap.pins
    · subst runs
      rw [dead] at cell ⊢
      exact .of_due present' binding cell after

end Self

/-- An insertion spares other keys, and all keys if it fails. -/
theorem Session.mapInsert_spares {i x : Nat} {key : String} {s : Session}
    (ownership : Ownership ⟨s, none, [], []⟩) {k : String} {v : ObjectRef}
    (other : k ≠ key ∨ (s.mapInsert i x k v).2 ≠ .ok ()) :
    Moves (fun t => t.Spares x key s ∧ t ≠ .alloc ∧ ∀ j, t ≠ .script j) ⟨s, none, [], []⟩
      ⟨(s.mapInsert i x k v).1, none, [], []⟩ := by
  refine Strides.moves (Session.mapInsert_strides ?_ (fun r => ?_) ?_ ?_ v ?_ ?_ ?_)
  · exact ⟨⟨nofun, nofun, nofun, fun _ _ => id⟩, nofun, nofun⟩
  · exact ⟨⟨nofun, nofun, nofun, fun _ _ => id⟩, nofun, nofun⟩
  · exact ⟨⟨nofun, nofun, nofun, fun _ _ => id⟩, nofun, nofun⟩
  · exact ⟨⟨nofun, nofun, nofun, fun _ _ => id⟩, nofun, nofun⟩
  · exact ⟨⟨nofun, nofun, nofun, fun _ _ => id⟩, nofun, nofun⟩
  · refine ⟨⟨nofun, nofun, nofun, ?_⟩, nofun, nofun⟩
    intro r there same
    have issued := ownership.issued (.entry x key) r there
    have named : r.id = ⟨s.handles + 1⟩ := (Finalizer.report.inj same).2.2
    rw [named] at issued
    exact absurd issued (Nat.not_succ_le_self _)
  · intro done
    have apart : k ≠ key := by
      rcases other with apart | failed
      · exact apart
      · exact absurd done failed
    refine ⟨⟨⟨?_, nofun, nofun, fun _ _ => id⟩, nofun, nofun⟩,
      ⟨⟨nofun, ?_, nofun, fun _ _ => id⟩, nofun, nofun⟩⟩
    · intro same
      cases same
      exact apart rfl
    · intro same
      cases same
      exact apart rfl

/-- Other keys do not notice an insertion, nor does anybody notice one that fails. -/
theorem Follows.after_mapInsert {i x : Nat} {key : String} {s : Session} {a : Option ObjectRef}
    (ownership : Ownership ⟨s, none, [], []⟩) (mirrors : Mirrors i x key ⟨s, none, [], []⟩ a)
    {j : Nat}
    {k : String} {v : ObjectRef} (other : k ≠ key ∨ (s.mapInsert j x k v).2 ≠ .ok ()) :
    Follows i x key a ⟨(s.mapInsert j x k v).1, none, [], []⟩ :=
  mirrors.start.run ownership (Session.mapInsert_spares ownership other) fun _ spares =>
    ⟨spares.1, spares.2.1⟩

end WeakRefs
