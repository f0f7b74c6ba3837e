import Mathlib.Data.List.Nodup
import WeakRefs.Proofs.ReportedEntries

/-!
# Expired entries do not stay

Every entry is bound to a live value or stands on the dead list, and an operation on the map leaves
this list empty, but for an insertion of a dead value. No entry goes before its value, unless it is
asked to.
-/

namespace WeakRefs

theorem Table.countP_key {κ ν : Type} [DecidableEq κ] {t : Table κ ν} {k : κ} {v : ν}
    (there : t.get? k = some v) : t.pairs.countP (fun e => e.1 = k) = 1 := by
  have listed : k ∈ t.pairs.map Prod.fst :=
    List.mem_map.mpr ⟨(k, v), Table.get?_eq_some_iff.mp there, rfl⟩
  have counted := List.count_eq_one_of_mem t.nodup listed
  rw [List.count, List.countP_map] at counted
  rw [← counted]
  refine List.countP_congr fun e _ => ?_
  simp

namespace Session
variable {s : Session} {i x : Nat} {key : String} {c : Collector} {map : WeakValueMap}

/-- How many entries of a map are bound to a live object of heap `i`. -/
def liveCount (s : Session) (i : Nat) (map : WeakValueMap) : Nat :=
  map.entries.pairs.countP fun e => (s.target? e.2).any (s.isLiveIn i)

/-- An entry whose value is there, and that has not been reported. -/
def IsCurrent (s : Session) (i : Nat) (map : WeakValueMap) (key : String) (r : WeakReference) :
    Prop :=
  ∃ v, s.target? r = some v ∧ s.isLiveIn i v = true ∧ (key, r.id) ∉ map.dead

/-- An entry whose binding is over, and that has been reported. -/
def IsExpired (s : Session) (map : WeakValueMap) (key : String) (r : WeakReference) : Prop :=
  s.isBound r = false ∧ (key, r.id) ∈ map.dead

section Count

theorem liveCount_of_current
    (current : ∀ k r, map.entries.get? k = some r → s.IsCurrent i map k r) :
    map.size = s.liveCount i map := by
  refine (List.countP_eq_length.mpr ?_).symm
  rintro ⟨k, r⟩ listed
  obtain ⟨v, target, live, _⟩ := current k r (Table.get?_eq_some_iff.mpr listed)
  rw [target]
  exact live

theorem liveCount_of_expired {r : WeakReference} (stands : map.entries.get? key = some r)
    (expired : s.IsExpired map key r)
    (current : ∀ k r, k ≠ key → map.entries.get? k = some r → s.IsCurrent i map k r) :
    map.size = s.liveCount i map + 1 := by
  unfold liveCount WeakValueMap.size Table.size
  rw [List.length_eq_countP_add_countP fun e => (s.target? e.2).any (s.isLiveIn i),
    ← Table.countP_key stands]
  congr 1
  refine List.countP_congr fun e listed => ?_
  have there := Table.get?_eq_some_iff.mpr listed
  by_cases same : e.1 = key
  · have its : r = e.2 := by
      rw [same, stands] at there
      exact Option.some.inj there
    have unbound : s.target? e.2 = none := by
      cases target : s.target? e.2 with
      | none => rfl
      | some v =>
        have bound := (s.isBound_iff_target? e.2).mpr ⟨v, target⟩
        exact absurd bound (Bool.eq_false_iff.mp (its ▸ expired.1))
    simp [same, unbound]
  · obtain ⟨v, target, live, _⟩ := current e.1 e.2 same there
    simp [same, target, live]

end Count

/-- A map is there, and nothing is on its dead list. -/
def Clean (s : Session) (x : Nat) : Prop := ∃ map, s.map? x = some map ∧ map.dead = []

section DeadLists

theorem clean_modifyEntries {t : Session}
    {f : Table String WeakReference → Table String WeakReference} (clean : s.Clean x)
    (maps : t.maps = s.maps) : (t.modifyEntries x f).Clean x := by
  obtain ⟨map, present, unreported⟩ := clean
  have there : t.map? x = some map := by
    rw [← present]
    unfold map?
    rw [maps]
  refine ⟨{ map with entries := f map.entries }, ?_, unreported⟩
  unfold modifyEntries
  rw [map?_modifyMap, if_pos rfl, there]
  rfl

variable (here : s.collector? i = some c) (present : s.map? x = some map)

section Present
include present

theorem clean_pruneMap : (s.pruneMap x).Clean x := ⟨_, map?_pruneMap present, map.dead_prune⟩

include here

theorem clean_mapGet : (s.mapGet i x key).1.Clean x := by
  unfold mapGet
  rw [here]
  dsimp only
  split
  · exact clean_pruneMap present
  · rename_i r stands
    have entries := ((stableView_entries? x).object (s.pruneMap x) i r).trans
      (entries?_pruneMap present)
    obtain ⟨map', present', _⟩ := Option.map_eq_some_iff.mp entries
    exact clean_pruneMap present'

theorem clean_mapRemove : (s.mapRemove i x key).1.Clean x := by
  unfold mapRemove
  rw [here]
  dsimp only
  split
  · exact clean_pruneMap present
  · rename_i r stands
    have same := ((s.pruneMap x).sameButBindings_read i r).trans
      (sameButBindings_disarm _ c.heap.pins r)
    exact clean_modifyEntries (clean_pruneMap present) same.maps

theorem clean_mapUpdate : (s.mapUpdate i x).Clean x := by
  unfold mapUpdate
  rw [here]
  dsimp only
  split
  · exact clean_pruneMap present
  · rename_i map' pruned
    have same := (s.pruneMap x).sameButBindings_sweepEntries i map'.entries.pairs
    split
    · exact clean_modifyEntries (clean_pruneMap present) same.maps
    · exact clean_modifyEntries (clean_pruneMap present) same.maps

end Present

include here

theorem maps_bindNew (focus : Focus) (v : ObjectRef) : (s.bindNew focus i v).1.maps = s.maps := by
  have here' : s.freshHandle.1.collector? i = some c := here
  unfold bindNew
  dsimp only
  rcases s.freshHandle.1.bind_cases here' focus { id := s.freshHandle.2 }
    (fun _ none => nomatch none) v with ⟨e, refused⟩ | ⟨c', ran, a, t, received, arrived, done⟩
  · rw [refused, emitAll_eq]
    rfl
  · rw [done]
    rcases arrived with arrived | counted
    · rw [arrived]
      rfl
    · rw [counted]
      rfl

include present

theorem map?_mapInsert {v : ObjectRef}
    (done : (s.mapInsert i x key v).2 = .ok ()) :
    ∃ r map', (s.mapInsert i x key v).1.map? x = some map' ∧ map'.entries.get? key = some r ∧
      ∀ e ∈ map'.dead, e.1 = key := by
  obtain ⟨r, a, made, defined, session⟩ := mapInsert_cases here present done
  rw [session]
  have pruned := map?_pruneMap present
  have maps := maps_bindNew ((s.collector?_pruneMap x i).trans here) (.map x) v
  generalize s.pruneMap x = t at made defined pruned maps
  have bound : (t.bindNew (.map x) i v).1.map? x = some map.prune.1 := by
    rw [← pruned]
    unfold map?
    rw [maps]
  generalize (t.bindNew (.map x) i v).1 = u at defined bound
  have placed {w : Session} {map' : WeakValueMap} (there : w.map? x = some map')
      (only : ∀ e ∈ map'.dead, e.1 = key) :
      ∃ r' map'', (w.placeEntry c.heap.pins x key r).map? x = some map'' ∧
        map''.entries.get? key = some r' ∧ ∀ e ∈ map''.dead, e.1 = key :=
    ⟨r, _, map?_placeEntry c.heap.pins there, (Table.get?_insert _ _ _ _).trans (if_pos rfl), only⟩
  cases at_i : u.collector? i with
  | none =>
    unfold define at defined
    rw [at_i] at defined
    cases defined
  | some d =>
    rcases u.define_cases at_i (.map x) v (.report x key r.id) with
      ⟨e, refused⟩ | ⟨d', ran, a', w, received, result, after⟩
    · rw [refused] at defined
      cases defined
    · rw [result]
      cases ran with
      | false =>
        have after : w = _ := after
        rw [after]
        exact placed bound nofun
      | true =>
        have delivered : ((u.setCollector i d').deliver (.map x) d.heap.pins
            (.report x key r.id)).map? x = some (map.prune.1.report key r.id) := by
          refine (map?_modifyMap _ x x _).trans ((if_pos rfl).trans ?_)
          exact congrArg (Option.map _) bound
        have only : ∀ e ∈ (map.prune.1.report key r.id).dead, e.1 = key := by
          intro e listed
          rw [List.mem_singleton.mp listed]
        rcases after with after | counted
        · rw [after]
          exact placed delivered only
        · rw [counted]
          exact placed delivered only

end DeadLists

end Session

/-- An entry that mirrors a value is current or expired. -/
theorem Mirrors.current_or_expired {s : Session} {i x : Nat} {key : String}
    {map : WeakValueMap} {a : Option ObjectRef} (mirrors : Mirrors i x key ⟨s, none, [], []⟩ a)
    (present : s.map? x = some map) {r : WeakReference} (stands : map.entries.get? key = some r) :
    (s.IsCurrent i map key r ∧ ∃ v, a = some v) ∨ (s.IsExpired map key r ∧ a = none) := by
  have there : s.entry? x key = some r := s.entry?_eq_some_iff.mpr ⟨map, present, stands⟩
  cases mirrors with
  | vacant nobody => exact nomatch nobody.symm.trans there
  | @bothKept r' b v stood bothKept =>
    cases stood.symm.trans there
    exact Or.inl ⟨⟨v, bothKept.target?, bothKept.ends.isLiveIn, bothKept.unreported map present⟩, v,
      rfl⟩
  | @valueGone r' stood valueGone =>
    cases stood.symm.trans there
    refine Or.inr ⟨⟨valueGone.isBound, ?_⟩, rfl⟩
    rcases valueGone.reported with flies | listed
    · cases flies
    · exact listed map present

theorem Session.collector?_perform {s : Session} (ownership : Ownership ⟨s, none, [], []⟩) {i : Nat}
    {c : Collector} (here : s.collector? i = some c) {op : Op} (running : op ≠ .shutDown i) :
    ∃ c', (s.perform op).1.collector? i = some c' := by
  have collected : (s.collector? i).isSome := by
    rw [here]
    rfl
  have stays : ((s.after [op]).collector? i).isSome := by
    refine Session.collector?_stays collected ownership ?_
    intro o listed
    rw [List.mem_singleton.mp listed]
    exact running
  exact Option.isSome_iff_exists.mp stays

/-- A value stays under its key where nobody inserts under it or removes it, or updates the map
while the value has no root. -/
theorem Session.written_of_spared {s : Session} {i x : Nat} {key : String} {A : WeakMap} {op : Op}
    {v : ObjectRef} (only : op.keepsTo i x = true) (mirrored : A key = some v)
    (inserts : ¬ ∃ w, op = .mapInsert i x key w ∧ (s.mapInsert i x key w).2 = .ok ())
    (removes : op ≠ .mapRemove i x key)
    (updates : ¬ (op = .mapUpdate i x ∧ s.isRootedIn i v = false)) :
    s.written i x op A key = some v := by
  rw [← mirrored]
  unfold Session.written
  split
  · rename_i j y k w done
    refine if_neg fun both => ?_
    obtain ⟨rfl, rfl⟩ := both
    obtain ⟨_, rfl⟩ := Op.eq_of_keepsTo rfl only
    refine inserts ⟨w, rfl, ?_⟩
    rw [Session.perform_mapInsert] at done
    cases result : (s.mapInsert j y k w).2 with
    | ok => rfl
    | error e =>
      rw [result] at done
      cases done
  · rename_i j y k _
    refine if_neg fun both => ?_
    obtain ⟨rfl, rfl⟩ := both
    obtain ⟨_, rfl⟩ := Op.eq_of_keepsTo rfl only
    exact removes rfl
  · rename_i j y
    split
    · rename_i same
      subst same
      obtain ⟨_, rfl⟩ := Op.eq_of_keepsTo rfl only
      have rooted : s.isRootedIn j v = true := by
        rw [← Bool.not_eq_false]
        exact fun unrooted => updates ⟨rfl, unrooted⟩
      rw [mirrored]
      simp [Option.filter, rooted]
    · rfl
  · rfl

namespace Refines
variable {s : Session} {i x : Nat} {key : String} {A : WeakMap} (refines : Refines i x A s)
include refines

/-- Where nothing is on the dead list, the entries are those whose values are there. -/
theorem size_eq {c : Collector} (here : s.collector? i = some c) {map : WeakValueMap}
    (present : s.map? x = some map) (unreported : map.dead = []) :
    map.size = s.liveCount i map := by
  refine Session.liveCount_of_current fun k r stands => ?_
  have mirrors := refines.mirrors.resolve_left (not_over here present) k
  rcases mirrors.current_or_expired present stands with ⟨current, _⟩ | ⟨⟨_, listed⟩, _⟩
  · exact current
  · rw [unreported] at listed
    cases listed

theorem size_mapInsert {c : Collector} (here : s.collector? i = some c) {map map' : WeakValueMap}
    (present : s.map? x = some map) {v : ObjectRef} (done : (s.mapInsert i x key v).2 = .ok ())
    (there : (s.mapInsert i x key v).1.map? x = some map') :
    map'.size = (s.mapInsert i x key v).1.liveCount i map' +
      if s.isLiveIn i v then 0 else 1 := by
  obtain ⟨r, map'', there', stands, only⟩ := Session.map?_mapInsert here present done
  cases there'.symm.trans there
  have performed : (s.perform (.mapInsert i x key v)).1 = (s.mapInsert i x key v).1 := by
    rw [Session.perform_mapInsert]
  have keeps : (Op.mapInsert i x key v).keepsTo i x = true := by simp [Op.keepsTo]
  have refines' := refines.perform rfl keeps
  obtain ⟨c', here'⟩ := Session.collector?_perform refines.boundKept.ownership here
    (show Op.mapInsert i x key v ≠ .shutDown i from nofun)
  rw [performed] at refines' here'
  have mirrors := refines'.mirrors.resolve_left (not_over here' there)
  have others : ∀ k q, k ≠ key → map'.entries.get? k = some q →
      (s.mapInsert i x key v).1.IsCurrent i map' k q := by
    intro k q other stood
    rcases (mirrors k).current_or_expired there stood with ⟨current, _⟩ | ⟨⟨_, listed⟩, _⟩
    · exact current
    · exact absurd (only _ listed) other
  have own := Mirrors.after_mapInsert refines.boundKept refines.issued here present done
  rcases own.current_or_expired there stands with ⟨current, w, mirrored⟩ | ⟨expired, mirrored⟩
  · have live : s.isLiveIn i v = true := by
      cases live : s.isLiveIn i v with
      | true => rfl
      | false =>
        rw [live] at mirrored
        cases mirrored
    rw [live]
    refine Session.liveCount_of_current fun k q stood => ?_
    by_cases same : k = key
    · subst same
      cases stands.symm.trans stood
      exact current
    · exact others k q same stood
  · have dead : s.isLiveIn i v = false := by
      cases live : s.isLiveIn i v with
      | false => rfl
      | true =>
        rw [live] at mirrored
        cases mirrored
    rw [dead]
    exact Session.liveCount_of_expired stands expired others

/-- An entry whose value stays is not removed, unless by a removal or insertion under its key, or by
an update while the value has no root. -/
theorem entry_stays {op : Op} (plain : op.scripts i = false) (only : op.keepsTo i x = true)
    {map' : WeakValueMap} (there : (s.perform op).1.map? x = some map') {r : WeakReference}
    (stands : s.entry? x key = some r) {v : ObjectRef} (target : s.target? r = some v)
    (live : (s.perform op).1.isLiveIn i v = true) :
    Session.entry? (s.perform op).1 x key = some r ∨ op = .mapRemove i x key ∨
      (∃ w, op = .mapInsert i x key w ∧ (s.mapInsert i x key w).2 = .ok ()) ∨
      (op = .mapUpdate i x ∧ s.isRootedIn i v = false) := by
  obtain ⟨c', here', _⟩ := Session.isLiveIn_iff.mp live
  have mirrors' := (refines.perform plain only).mirrors.resolve_left (not_over here' there) key
  have moves := Session.perform_moves_of_ownership refines.boundKept.ownership op
  have running : ¬ HeapOrMapGone i x s := fun past => not_over here' there
    (moves.preserves (I := fun m => HeapOrMapGone i x m.session) (fun _ move past => past.move move)
    past)
  have mirrored : A key = some v := by
    rw [← ((refines.mirrors.resolve_left running) key).targetAt?, Session.targetAt?]
    exact (congrArg (Option.bind · s.target?) stands).trans target
  by_cases inserts : ∃ w, op = .mapInsert i x key w ∧ (s.mapInsert i x key w).2 = .ok ()
  · exact Or.inr (Or.inr (Or.inl inserts))
  by_cases removes : op = .mapRemove i x key
  · exact Or.inr (Or.inl removes)
  by_cases updates : op = .mapUpdate i x ∧ s.isRootedIn i v = false
  · exact Or.inr (Or.inr (Or.inr updates))
  left
  have kept : s.weakened i x op A key = some v := by
    unfold Session.weakened
    rw [Session.written_of_spared only mirrored inserts removes updates]
    simp [Option.filter, live]
  rw [kept] at mirrors'
  cases mirrors' with
  | @bothKept r' b _ stays bothKept =>
    have before : s.entry? x key = some r' := by
      have moves := Session.entry_moves refines.boundKept.ownership
        fun j w (same : op = .mapInsert j x key w) done => inserts ?_
      · exact moves.preserves (I := fun m => m.session.entry? x key = some r' → _)
          (fun calm move before there => before (move.entry_before there calm.1)) id stays
      · subst same
        obtain ⟨_, rfl⟩ := Op.eq_of_keepsTo rfl only
        exact ⟨w, rfl, done⟩
    rw [stays, ← stands, before]

end Refines

/-- Every entry is bound to a live value or on the dead list, and not both. After an operation as
many are left as are bound to live values, but for an insertion of a dead value. -/
theorem expired_entries_are_pruned {ops : List Op} {i x : Nat}
    (plain : ∀ op ∈ ops, op.scripts i = false) (only : ∀ op ∈ ops, op.keepsTo i x = true)
    {s : Session} (run : s = Session.after {} ops) {c : Collector}
    (here : s.collector? i = some c) {map : WeakValueMap} (present : s.map? x = some map) :
    (∀ key r, map.entries.get? key = some r →
      (∃ v, s.target? r = some v ∧ c.heap.isLive v = true ∧ (key, r.id) ∉ map.dead) ∨
        (s.isBound r = false ∧ (key, r.id) ∈ map.dead)) ∧
    (∀ op key, op = .mapGet i x key ∨ op = .mapRemove i x key ∨ op = .mapUpdate i x →
      ∃ map', (s.perform op).1.map? x = some map' ∧
        map'.size = (s.perform op).1.liveCount i map') ∧
    (∀ key v, (s.perform (.mapInsert i x key v)).2 = .done →
      ∃ map', (s.perform (.mapInsert i x key v)).1.map? x = some map' ∧
        map'.size = (s.perform (.mapInsert i x key v)).1.liveCount i map' +
          if c.heap.isLive v then 0 else 1) ∧
    ∀ op map', op.scripts i = false → op.keepsTo i x = true →
      (s.perform op).1.map? x = some map' → ∀ key r v, map.entries.get? key = some r →
        s.target? r = some v → (s.perform op).1.isLiveIn i v = true →
        map'.entries.get? key = some r ∨ op = .mapRemove i x key ∨
          (∃ w, op = .mapInsert i x key w ∧ (s.perform op).2 = .done) ∨
          (op = .mapUpdate i x ∧ c.heap.isReachable v = false) := by
  have refines : Refines i x (Session.weakMap i x {} (fun _ => none) ops) s := by
    rw [run]
    exact Refines.empty.run plain only
  have mirrors := refines.mirrors.resolve_left (not_over here present)
  have same_heap {v : ObjectRef} : s.isLiveIn i v = c.heap.isLive v := Session.isLiveIn_eq here v
  refine ⟨fun key r stands => ?_, fun op key which => ?_, fun key v done => ?_, ?_⟩
  · rcases (mirrors key).current_or_expired present stands with ⟨current, _⟩ | ⟨expired, _⟩
    · obtain ⟨v, target, live, unreported⟩ := current
      exact Or.inl ⟨v, target, same_heap ▸ live, unreported⟩
    · exact Or.inr expired
  · have clean : (s.perform op).1.Clean x := by
      rcases which with rfl | rfl | rfl
      · exact Session.clean_mapGet here present
      · exact Session.clean_mapRemove here present
      · exact Session.clean_mapUpdate here present
    obtain ⟨map', there, unreported⟩ := clean
    have calm : op.scripts i = false ∧ op.keepsTo i x = true ∧ op ≠ .shutDown i := by
      rcases which with rfl | rfl | rfl <;> exact ⟨rfl, by simp [Op.keepsTo], nofun⟩
    obtain ⟨c', here'⟩ := Session.collector?_perform refines.boundKept.ownership here calm.2.2
    exact ⟨map', there, (refines.perform calm.1 calm.2.1).size_eq here' there unreported⟩
  · rw [Session.perform_mapInsert] at done ⊢
    have ok : (s.mapInsert i x key v).2 = .ok () := by
      cases result : (s.mapInsert i x key v).2 with
      | ok => rfl
      | error e =>
        rw [result] at done
        cases done
    obtain ⟨_, map', there, _, _⟩ := Session.map?_mapInsert here present ok
    rw [← same_heap]
    exact ⟨map', there, refines.size_mapInsert here present ok there⟩
  · intro op map' plain only there key r v stands target live
    have stood : s.entry? x key = some r := s.entry?_eq_some_iff.mpr ⟨map, present, stands⟩
    rcases refines.entry_stays plain only there stood target live with
      stays | removed | ⟨w, inserts, ok⟩ | ⟨updates, unrooted⟩
    · obtain ⟨map'', there', stands'⟩ := (Session.entry?_eq_some_iff _).mp stays
      cases there.symm.trans there'
      exact Or.inl stands'
    · exact Or.inr (Or.inl removed)
    · refine Or.inr (Or.inr (Or.inl ⟨w, inserts, ?_⟩))
      rw [inserts, Session.perform_mapInsert, ok]
    · refine Or.inr (Or.inr (Or.inr ⟨updates, ?_⟩))
      unfold Session.isRootedIn at unrooted
      rw [here] at unrooted
      exact unrooted

/-- One of two values is gone. A get of the other leaves one entry, and an insertion of the value
that is gone leaves two. -/
theorem entries_after_release :
    let ops : List Op := [.newHeap {}, .alloc 0 .plain, .alloc 0 .emittable, .newMap,
      .mapInsert 0 0 "gone" ⟨1, 0⟩, .mapInsert 0 0 "here" ⟨0, 0⟩, .release 0 ⟨1, 0⟩]
    let s := Session.after {} ops
    let got := (s.perform (.mapGet 0 0 "here")).1
    let put := (s.perform (.mapInsert 0 0 "new" ⟨1, 0⟩)).1
    (∃ map, got.map? 0 = some map ∧ map.size = 1 ∧
      map.entries.get? "here" = some ⟨⟨2⟩, some ⟨1, .indirect, ⟨1⟩, 0⟩⟩) ∧
    ∃ map, put.map? 0 = some map ∧ map.size = 2 := by
  intro ops s got put
  have collected : (s.collector? 0).any fun c => !c.heap.isLive ⟨1, 0⟩ := by decide +kernel
  obtain ⟨c, here, gone⟩ := (Option.any_eq_true _ _).mp collected
  have mapped : (s.map? 0).any fun map => map.entries.get? "here" =
      some ⟨⟨2⟩, some ⟨1, .indirect, ⟨1⟩, 0⟩⟩ := by decide +kernel
  obtain ⟨map, present, stands⟩ := (Option.any_eq_true _ _).mp mapped
  have plain : ∀ op ∈ ops, op.scripts 0 = false := by decide
  have only : ∀ op ∈ ops, op.keepsTo 0 0 = true := by decide
  obtain ⟨_, cleaned, inserted, stays⟩ :=
    expired_entries_are_pruned plain only (s := s) rfl here present
  constructor
  · obtain ⟨map', there, counted⟩ := cleaned (.mapGet 0 0 "here") "here" (Or.inl rfl)
    have live : (got.map? 0).any fun map => got.liveCount 0 map = 1 := by decide +kernel
    rw [there] at live
    rcases stays (.mapGet 0 0 "here") map' rfl rfl there "here" _ ⟨0, 0⟩
      (of_decide_eq_true stands) (by decide +kernel) (by decide +kernel) with
      kept | removed | ⟨_, inserts, _⟩ | ⟨updates, _⟩
    · exact ⟨map', there, counted.trans (of_decide_eq_true live), kept⟩
    · cases removed
    · cases inserts
    · cases updates
  · obtain ⟨map', there, counted⟩ := inserted "new" ⟨1, 0⟩ (by decide +kernel)
    have live : (put.map? 0).any fun map => put.liveCount 0 map = 1 := by decide +kernel
    rw [there] at live
    rw [Bool.not_eq_eq_eq_not.mp gone, of_decide_eq_true live] at counted
    exact ⟨map', there, counted⟩

end WeakRefs
