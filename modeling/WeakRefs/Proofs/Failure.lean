import WeakRefs.Proofs.Alike.Operations
import WeakRefs.Proofs.GoneHeap
import WeakRefs.Proofs.Isolation
import WeakRefs.Proofs.OwedFinalizers
import WeakRefs.Proofs.ReportedEntries

/-!
# What a failure leaves behind

A bind that fails has not been tried. An insertion fails before or after its reference was bound; in
the second case it leaves a finalizer behind, which is spent.
-/

namespace WeakRefs

namespace Collector

/-- A collector has taken in finalizers, held back some of them and kept others on `r`, and left the
objects alone. -/
structure TookIn (c c' : Collector) (r : ObjectRef) (held kept : List Finalizer) : Prop where
  stash : c'.stash = c.stash ++ held
  pending : ∀ q, c'.heap.pendingOf q = c.heap.pendingOf q ++ if q = r then kept else []
  objects : ∀ q, (c'.heap.object? q).map (fun o => (o.kind, o.roots)) =
    (c.heap.object? q).map fun o => (o.kind, o.roots)

namespace TookIn
variable {c c' : Collector} {r : ObjectRef}

theorem none (stash : c'.stash = c.stash) (pending : ∀ q, c'.heap.pendingOf q = c.heap.pendingOf q)
    (objects : ∀ q, c'.heap.object? q = c.heap.object? q) : TookIn c c' r [] [] where
  stash := by rw [stash, List.append_nil]
  pending q := by rw [pending, ite_self, List.append_nil]
  objects q := by rw [objects]

theorem of_receives {f : Finalizer} {ran : Bool} {a : Affiliation} (sound : c.heap.Sound)
    (received : c.Receives r f c' ran a) : ∃ held kept, TookIn c c' r held kept ∧
      (held ++ kept).length ≤ 1 ∧ ∀ g ∈ held ++ kept, g = f := by
  cases received with
  | kept kept =>
    refine ⟨[], [f], ⟨(List.append_nil _).symm, Heap.pendingOf_define_eq sound kept,
      Heap.object?_define kept⟩, Nat.le_refl 1, fun g => List.mem_singleton.mp⟩
  | stashed _ _ =>
    have kept (q : ObjectRef) : c.heap.pendingOf q =
        c.heap.pendingOf q ++ if q = r then [] else [] := by
      rw [ite_self, List.append_nil]
    exact ⟨[f], [], ⟨rfl, kept, fun _ => rfl⟩, Nat.le_refl 1, fun g => List.mem_singleton.mp⟩
  | _ => exact ⟨[], [], .none rfl (fun _ => rfl) fun _ => rfl, Nat.zero_le 1, nofun⟩

end TookIn

end Collector

namespace Session
variable {s : Session} {i : Nat}

section Definitions
variable {focus : Focus}

theorem define_failed {r : ObjectRef} {f : Finalizer} {e : RefError}
    (failed : (s.define focus i r f).2 = .error e) :
    (s.define focus i r f).1 = s.modifyCollector i Collector.advance := by
  cases here : s.collector? i with
  | none =>
    rw [modifyCollector_of_gone here]
    unfold define
    rw [here]
  | some c =>
    rw [modifyCollector_eq _ here]
    rcases s.define_cases here focus r f with ⟨e', refused⟩ | ⟨c', ran, a, t, _, done, _⟩
    · rw [refused]
    · rw [done] at failed
      cases failed

theorem bind_failed {ref : WeakReference} {target : ObjectRef} {e : RefError}
    (failed : (s.bind focus i ref target).2.2 = .error e) : s.bind focus i ref target =
      ((s.modifyCollector i Collector.advance).emitAll (rejection ref.id e), ref, .error e) := by
  cases here : s.collector? i with
  | none =>
    rw [modifyCollector_of_gone here]
    unfold bind at failed ⊢
    rw [here] at failed ⊢
    cases failed
    rfl
  | some c =>
    unfold bind at failed ⊢
    rw [here] at failed ⊢
    dsimp only at failed ⊢
    cases defined : (s.newCell.1.define focus i target (.endBinding s.newCell.2 ref.id)).2 with
    | error e' =>
      rw [defined] at failed
      cases failed
      dsimp only
      rw [define_failed defined]
      rfl
    | ok a =>
      rw [defined] at failed
      cases failed

theorem bindNew_failed {target : ObjectRef} {e : RefError}
    (failed : (s.bindNew focus i target).2 = .error e) : (s.bindNew focus i target).1 =
      (s.freshHandle.1.modifyCollector i Collector.advance).emitAll
        (rejection s.freshHandle.2 e) := by
  unfold bindNew at failed ⊢
  dsimp only at failed ⊢
  cases bound : (s.freshHandle.1.bind focus i { id := s.freshHandle.2 } target).2.2 with
  | error e' =>
    rw [bound] at failed
    cases failed
    rw [bind_failed bound]
  | ok a =>
    rw [bound] at failed
    cases failed

theorem perform_bind {r : Nat} {ref : WeakReference} (there : s.ref? r = some ref)
    (target : ObjectRef) : s.perform (.bind i r target) =
      ((s.bind (.reference r) i ref target).1.setRef r
        (some (s.bind (.reference r) i ref target).2.1),
        attachedReply (s.bind (.reference r) i ref target).2.2) := withRef_of_ref? there _

theorem perform_bind_failed {r : Nat} {target : ObjectRef} {e : RefError}
    (failed : (s.perform (.bind i r target)).2 = .failed e) :
    SameButReports (s.modifyCollector i Collector.advance) (s.perform (.bind i r target)).1 := by
  cases there : s.ref? r with
  | none =>
    have same : s.perform (.bind i r target) = (s, .done) := by
      change s.withRef r _ = _
      unfold withRef
      rw [there]
    rw [same] at failed
    cases failed
  | some ref =>
    rw [perform_bind there] at failed ⊢
    cases bound : (s.bind (.reference r) i ref target).2.2 with
    | ok a =>
      rw [bound] at failed
      cases failed
    | error e' =>
      rw [bind_failed bound]
      have still : ((s.modifyCollector i Collector.advance).emitAll (rejection ref.id e')).ref? r =
          some ref := by
        rw [emitAll_eq]
        exact there
      dsimp only
      rw [setRef_self still]
      exact .of_emitAll _

end Definitions

theorem target?_congr {s' : Session} {r : WeakReference}
    (same : ∀ c, r.cell? = some c → s'.cell c = s.cell c) : s'.target? r = s.target? r := by
  cases binding : r.binding with
  | none => simp [target?, binding]
  | some b =>
    rw [target?_of_binding _ binding, target?_of_binding _ binding,
      same b.cell (WeakReference.cell?_of_binding binding)]

theorem mem_pinned_of_discardAll {rs : List WeakReference} {P : Nat} {h : HandleId}
    (there : h ∈ (s.discardAll rs).pinned P) : h ∈ s.pinned P := by
  induction rs generalizing s with
  | nil => exact there
  | cons r rest ih => exact ((s.mem_pinned_discard r P h).mp (ih there)).1

section Prune
variable {x : Nat} {map : WeakValueMap} (present : s.map? x = some map)
include present

/-- Pruning changes the entries of one map and the bindings of those that leave. -/
theorem pruneMap_keeps : (s.pruneMap x).collectors = s.collectors ∧ (s.pruneMap x).refs = s.refs ∧
    (s.pruneMap x).handles = s.handles ∧ (s.pruneMap x).cells.size = s.cells.size ∧
    ∀ y, y ≠ x → (s.pruneMap x).map? y = s.map? y := by
  rw [pruneMap_eq present]
  refine ⟨rfl, rfl, rfl, s.size_cells_discardAll _, fun y other => ?_⟩
  exact (s.map?_setMap x y _).trans (if_neg fun named => other named.1.symm)

theorem cell_pruneMap (d : Nat) : (s.pruneMap x).cell d =
    if ∃ r ∈ map.prune.2, r.cell? = some d then .superseded else s.cell d := by
  rw [pruneMap_eq present]
  exact s.cell_discardAll map.prune.2 d

theorem pinned_pruneMap_eq (P : Nat) :
    (s.pruneMap x).pinned P = (s.discardAll map.prune.2).pinned P := by
  rw [pruneMap_eq present]
  rfl

theorem held_of_pruneMap {p : Place} {r : WeakReference} (there : (s.pruneMap x).held p = some r) :
    s.held p = some r ∧ ∀ key, p = .entry x key → (key, r.id) ∉ map.dead := by
  obtain ⟨_, refs, _, _, others⟩ := pruneMap_keeps present
  cases p with
  | ref n =>
    have there : (s.pruneMap x).refs[n]?.join = some r := there
    rw [refs] at there
    exact ⟨there, nofun⟩
  | entry y key =>
    by_cases same : y = x
    · subst same
      obtain ⟨here, unreported⟩ := entry?_of_pruneMap there
      refine ⟨here, fun k same => ?_⟩
      cases same
      exact unreported map present
    · have there : ((s.pruneMap x).map? y).bind (fun map => map.entries.get? key) = some r := there
      rw [others y same] at there
      exact ⟨there, fun k same' => absurd (Place.entry.inj same').1 same⟩
  | hand => cases there

/-- Who is still there after pruning is bound and pinned as before. -/
theorem pruneMap_stays (ownership : Ownership ⟨s, none, [], []⟩) {p : Place} {r : WeakReference}
    (there : (s.pruneMap x).held p = some r) : s.held p = some r ∧
      (s.pruneMap x).target? r = s.target? r ∧
      ∀ P, r.id ∈ (s.pruneMap x).pinned P ↔ r.id ∈ s.pinned P := by
  obtain ⟨here, unreported⟩ := held_of_pruneMap present there
  have elsewhere {q : WeakReference} (leaves : q ∈ map.prune.2) :
      ∃ o, s.held o = some q ∧ o ≠ p := by
    obtain ⟨key, stands, reported⟩ := (map.mem_prune q).mp leaves
    have stood : s.held (.entry x key) = some q := s.entry?_eq_some_iff.mpr ⟨map, present, stands⟩
    refine ⟨_, stood, fun same => ?_⟩
    rw [same, here] at stood
    exact unreported key same.symm (Option.some.inj stood ▸ reported)
  have held {o : Place} {q : WeakReference} (at_o : s.held o = some q) :
      Moment.held ⟨s, none, [], []⟩ o = some q := (Moment.held_atRest s o).trans at_o
  have cells : ∀ c, r.cell? = some c → (s.pruneMap x).cell c = s.cell c := by
    intro c mine
    rw [cell_pruneMap present, if_neg]
    rintro ⟨q, leaves, its⟩
    obtain ⟨o, at_o, other⟩ := elsewhere leaves
    exact other (ownership.own o p q r c (held at_o) (held here) its mine)
  refine ⟨here, target?_congr cells, fun P => ?_⟩
  rw [pinned_pruneMap_eq present,
    s.mem_pinned_discardAll ((distinctCells_of_ownership ownership x).apart present)]
  refine and_iff_left ?_
  rintro ⟨q, leaves, b, _, _, _, named⟩
  obtain ⟨o, at_o, other⟩ := elsewhere leaves
  exact other (ownership.ids o p q r (held at_o) (held here) named.symm)

end Prune

section Undo
variable (s i) (c d : Collector) (r : WeakReference) {b : Binding} (v : ObjectRef) (ran : Bool)
variable (a : Affiliation) (binding : r.binding = some b) (new : b.cell = s.cells.size)
include binding new

theorem cell_undo (n : Nat) : (((s.arrive i c r.id v ran a).setCollector i d).discard r).cell n =
    if n = s.cells.size then .superseded else s.cell n := by
  have mine : r.cell? = some s.cells.size := WeakReference.cell?_eq_some_iff.mpr ⟨b, binding, new⟩
  have arrived : ((s.arrive i c r.id v ran a).setCollector i d).cell n =
      (s.arrive i c r.id v ran a).cell n := rfl
  rw [cell_discard, mine, arrived, cell_arrive]
  by_cases same : n = s.cells.size
  · rw [if_pos (congrArg some same.symm), if_pos same]
  · rw [if_neg fun e => same (Option.some.inj e).symm, if_neg same, if_neg same]

theorem mem_pinned_undo (pins : b.pins = c.heap.pins) (P : Nat) (h : HandleId) :
    h ∈ (((s.arrive i c r.id v ran a).setCollector i d).discard r).pinned P ↔
      h ∈ s.pinned P ∧ ¬ (ran = false ∧ P = c.heap.pins ∧ h = r.id) := by
  have state : (s.arrive i c r.id v ran a).cell b.cell = if ran then .cleared else .bound v :=
    (s.cell_arrive b.cell).trans (if_pos new)
  rw [mem_pinned_discard, binding]
  cases ran with
  | true =>
    refine and_congr Iff.rfl (not_congr ⟨?_, fun both => nomatch both.1⟩)
    rintro ⟨_, same, bound, _⟩
    cases same
    have bound : ((s.arrive i c r.id v true a).cell b.cell).isBound = true := bound
    rw [state] at bound
    cases bound
  | false =>
    have pinned := s.mem_pinned_pin c.heap.pins P r.id h
    have let_go : (∃ b', some b = some b' ∧ (((s.arrive i c r.id v false a).setCollector i d).cell
        b'.cell).isBound = true ∧ P = b'.pins ∧ h = r.id) ↔ P = c.heap.pins ∧ h = r.id := by
      constructor
      · rintro ⟨_, same, _, at_P, named⟩
        cases same
        exact ⟨at_P.trans pins, named⟩
      · rintro ⟨at_P, named⟩
        refine ⟨b, rfl, ?_, at_P.trans pins.symm, named⟩
        exact (congrArg Cell.isBound state).trans rfl
    rw [let_go]
    constructor
    · rintro ⟨there, other⟩
      rcases pinned.mp there with ⟨at_P, _, named⟩ | before
      · exact absurd ⟨at_P.symm, named⟩ other
      · exact ⟨before, fun both => other both.2⟩
    · rintro ⟨before, other⟩
      exact ⟨pinned.mpr (Or.inr before), fun both => other ⟨rfl, both⟩⟩

end Undo

/-- What an insertion of `v` that fails makes of a session. -/
structure Undoes (s s' : Session) (i : Nat) (v : ObjectRef) : Prop where
  refs : s'.refs = s.refs
  maps : s'.maps = s.maps
  cells : ∀ d, d < s.cells.size → s'.cell d = s.cell d
  pins : ∀ P h, h ≠ s.freshHandle.2 → (h ∈ s'.pinned P ↔ h ∈ s.pinned P)
  unpinned : ∀ P h, h ∈ s'.pinned P → h ∈ s.pinned P
  others : ∀ j, j ≠ i → s'.collector? j = s.collector? j
  left : ∀ c, s.collector? i = some c → ∃ c' held kept, s'.collector? i = some c' ∧
    c.TookIn c' v held kept ∧ (held ++ kept).length ≤ 1 ∧ ∀ f ∈ held ++ kept,
      f = .endBinding s.cells.size s.freshHandle.2 ∧ s.cells.size < s'.cells.size ∧
        (s'.cell s.cells.size).isBound = false

namespace Undoes
variable {v : ObjectRef} {c : Collector} (here : s.collector? i = some c)
include here

theorem of_bind (events : List Event) :
    Undoes s ((s.freshHandle.1.modifyCollector i Collector.advance).emitAll events) i v := by
  have advanced : (s.freshHandle.1.modifyCollector i Collector.advance) =
      s.freshHandle.1.setCollector i c.advance := s.freshHandle.1.modifyCollector_eq here _
  rw [advanced, emitAll_eq]
  have view (j : Nat) := s.collector?_setCollector here c.advance j
  refine ⟨rfl, rfl, fun _ _ => rfl, fun _ _ _ => Iff.rfl, fun _ _ => id, fun j other => ?_, ?_⟩
  · exact (view j).trans (if_neg other)
  · intro d at_i
    rw [here] at at_i
    cases at_i
    exact ⟨_, [], [], (view i).trans (if_pos rfl), .none rfl (fun _ => rfl) fun _ => rfl,
      Nat.zero_le 1, nofun⟩

theorem of_report (sound : c.heap.Sound) (focus : Focus) {r : WeakReference}
    (made : (s.bindNew focus i v).2 = .ok r) :
    Undoes s (((s.bindNew focus i v).1.modifyCollector i Collector.advance).discard r) i v := by
  have here' : s.freshHandle.1.collector? i = some c := here
  unfold bindNew at made ⊢
  dsimp only at made ⊢
  rcases s.freshHandle.1.bind_cases here' focus { id := s.freshHandle.2 }
    (fun _ none => nomatch none) v with ⟨e, refused⟩ | ⟨d, ran, a, u, received, arrived, done⟩
  · rw [refused] at made
    cases made
  rw [done] at made ⊢
  cases made
  dsimp only
  obtain ⟨held, kept, took, few, its⟩ := Collector.TookIn.of_receives sound received
  have fresh : s.freshHandle.1.disarm c.heap.pins { id := s.freshHandle.2 } = s.freshHandle.1 := rfl
  rw [fresh] at arrived
  have there := collector?_setCollector_self here' d
  have there : (s.freshHandle.1.arrive i d s.freshHandle.2 v ran a).collector? i = some d := there
  obtain ⟨e, became, took'⟩ : ∃ e, u.modifyCollector i Collector.advance =
      (s.freshHandle.1.arrive i d s.freshHandle.2 v ran a).setCollector i e ∧
      c.TookIn e v held kept := by
    rcases arrived with arrived | counted
    · rw [arrived, modifyCollector_eq _ there]
      exact ⟨d.advance, rfl, took.stash, took.pending, took.objects⟩
    · rw [counted, modifyHeap_eq there, modifyCollector_eq _
        (collector?_setCollector_self there _), setCollector_setCollector]
      exact ⟨_, rfl, took.stash, took.pending, took.objects⟩
  rw [became]
  have pins := received.pins.1.symm
  have cell := s.freshHandle.1.cell_undo i d e
    ⟨s.freshHandle.2, some ⟨s.cells.size, a, c.heap.runtime, c.heap.pins⟩⟩ v ran a rfl rfl
  have pinned := s.freshHandle.1.mem_pinned_undo i d e
    ⟨s.freshHandle.2, some ⟨s.cells.size, a, c.heap.runtime, c.heap.pins⟩⟩ v ran a rfl rfl pins
  have same := ((s.freshHandle.1.arrive i d s.freshHandle.2 v ran a).setCollector i
    e).sameButBindings_discard
      ⟨s.freshHandle.2, some ⟨s.cells.size, a, c.heap.runtime, c.heap.pins⟩⟩
  refine ⟨same.refs, same.maps, fun n inside => (cell n).trans (if_neg (Nat.ne_of_lt inside)),
    fun P h other => (pinned P h).trans (and_iff_left fun both => other both.2.2),
    fun P h left => ((pinned P h).mp left).1, fun j other => ?_, fun d' at_i => ?_⟩
  · refine (same.collector? j).trans ((collector?_setCollector _ there e j).trans ?_)
    exact (if_neg other).trans ((s.freshHandle.1.collector?_setCollector here' d j).trans
      (if_neg other))
  · cases here.symm.trans at_i
    refine ⟨e, held, kept, (same.collector? i).trans (collector?_setCollector_self there e), took',
      few, fun f listed => ⟨its f listed, ?_, ?_⟩⟩
    · rw [size_cells_discard]
      exact Nat.lt_of_lt_of_eq (Nat.lt_succ_self _) (Array.size_push _).symm
    · exact congrArg Cell.isBound ((cell s.cells.size).trans (if_pos rfl))

end Undoes

theorem mapInsert_failed {c : Collector} (here : s.collector? i = some c) (sound : c.heap.Sound)
    {x : Nat} {map : WeakValueMap} (present : s.map? x = some map) {key : String} {v : ObjectRef}
    {e : RefError} (failed : (s.mapInsert i x key v).2 = .error e) :
    Undoes (s.pruneMap x) (s.mapInsert i x key v).1 i v := by
  have here' := (s.collector?_pruneMap x i).trans here
  unfold mapInsert at failed ⊢
  rw [here, present] at failed ⊢
  dsimp only at failed ⊢
  cases made : ((s.pruneMap x).bindNew (.map x) i v).2 with
  | error e' =>
    dsimp only
    rw [bindNew_failed made]
    exact .of_bind here' _
  | ok r =>
    rw [made] at failed
    dsimp only at failed ⊢
    cases reported : (((s.pruneMap x).bindNew (.map x) i v).1.define (.map x) i v
        (.report x key r.id)).2 with
    | error e' =>
      dsimp only
      rw [define_failed reported]
      exact .of_report here' sound _ made
    | ok a =>
      rw [reported] at failed
      cases failed

end Session

/-- What an insertion of `v` in map `x` by collector `i` leaves behind if it fails. -/
structure Session.InsertFailed (s s' : Session) (i x : Nat) (v : ObjectRef) : Prop where
  /-- The entries are those that were not on the dead list. -/
  entries : ∀ map, s.map? x = some map → ∀ key r, s'.entry? x key = some r ↔
    map.entries.get? key = some r ∧ (key, r.id) ∉ map.dead
  maps : ∀ y, y ≠ x → s'.map? y = s.map? y
  refs : s'.refs = s.refs
  /-- Whoever is there is bound as before, and pinned as before. -/
  stays : ∀ p r, s'.held p = some r → s.held p = some r ∧ s'.target? r = s.target? r ∧
    ∀ P, r.id ∈ s'.pinned P ↔ r.id ∈ s.pinned P
  /-- No pin was added. -/
  pins : ∀ P h, h ∈ s'.pinned P → h ∈ s.pinned P
  others : ∀ j, j ≠ i → s'.collector? j = s.collector? j
  /-- The collector has taken in one finalizer at most, and that one is spent. -/
  left : ∀ c, s.collector? i = some c → ∃ c' held kept, s'.collector? i = some c' ∧
    c.TookIn c' v held kept ∧ (held ++ kept).length ≤ 1 ∧ ∀ f ∈ held ++ kept,
      f = .endBinding s.cells.size s.freshHandle.2 ∧ f.IsSpent s'

namespace Session

theorem InsertFailed.of_undoes {s s' : Session} {i x : Nat} {v : ObjectRef}
    {map : WeakValueMap} (present : s.map? x = some map) (ownership : Ownership ⟨s, none, [], []⟩)
    (ownership' : Ownership ⟨s', none, [], []⟩) (settled' : Moment.Settled ⟨s', none, [], []⟩)
    (undoes : Undoes (s.pruneMap x) s' i v) : InsertFailed s s' i x v := by
  obtain ⟨collectors, refs, handles, size, others⟩ := pruneMap_keeps present
  have listed (p : Place) : s'.held p = (s.pruneMap x).held p :=
    held_congr undoes.refs undoes.maps p
  have new : (s.pruneMap x).freshHandle.2 = s.freshHandle.2 := by
    unfold freshHandle
    rw [handles]
  constructor
  · intro map' same key r
    cases present.symm.trans same
    have at_key : s'.entry? x key = Session.entry? (s.pruneMap x) x key := listed (.entry x key)
    rw [at_key, entry?_eq, entries?_pruneMap present]
    exact map.get?_prune key r
  · intro y other
    rw [← others y other]
    unfold map?
    rw [undoes.maps]
  · exact undoes.refs.trans refs
  · intro p r there
    rw [listed] at there
    obtain ⟨here, target, pins⟩ := pruneMap_stays present ownership there
    have held : Moment.held ⟨s, none, [], []⟩ p = some r := (Moment.held_atRest s p).trans here
    refine ⟨here, (target?_congr fun c mine => undoes.cells c ?_).trans target, fun P => ?_⟩
    · exact size ▸ ownership.inside p r c held mine
    · refine (undoes.pins P r.id fun fresh => ?_).trans (pins P)
      have issued := ownership.issued p r held
      rw [fresh, new] at issued
      exact absurd issued (Nat.not_succ_le_self _)
  · intro P h there
    have there := undoes.unpinned P h there
    rw [pinned_pruneMap_eq present] at there
    exact mem_pinned_of_discardAll there
  · intro j other
    exact (undoes.others j other).trans (collector?_congr collectors j)
  · intro c here
    obtain ⟨c', held, kept, there, took, few, its⟩ :=
      undoes.left c ((collector?_congr collectors i).trans here)
    refine ⟨c', held, kept, there, took, few, fun f waits => ?_⟩
    obtain ⟨same, made, past⟩ := its f waits
    rw [same]
    refine ⟨by rw [size, new], ?_⟩
    exact Finalizer.isSpent_of_unbound ownership' settled' made past _

end Session

/-- After a bind that failed all goes on as if it had not been tried. An insertion that failed has
pruned, and leaves at most one finalizer behind, which is spent. -/
theorem failure_is_undone {ops : List Op} {s : Session} (run : s = Session.after {} ops) :
    (∀ focus i ref target e, (s.bind focus i ref target).2.2 = .error e →
      s.bind focus i ref target = ((s.modifyCollector i Collector.advance).emitAll
        (Session.rejection ref.id e), ref, .error e)) ∧
    (∀ i r target e, (s.perform (.bind i r target)).2 = .failed e → ∀ later,
      Session.SameButReports ((s.modifyCollector i Collector.advance).after later)
        ((s.perform (.bind i r target)).1.after later) ∧
      (s.perform (.bind i r target)).1.replies later =
        (s.modifyCollector i Collector.advance).replies later) ∧
    (∀ focus i target e, (s.bindNew focus i target).2 = .error e → ∀ later,
      Session.SameButReports ((s.freshHandle.1.modifyCollector i Collector.advance).after later)
        ((s.bindNew focus i target).1.after later) ∧
      (s.bindNew focus i target).1.replies later =
        (s.freshHandle.1.modifyCollector i Collector.advance).replies later) ∧
    ∀ i x key v e c map, s.collector? i = some c → s.map? x = some map →
      (s.mapInsert i x key v).2 = .error e →
      s.InsertFailed (s.mapInsert i x key v).1 i x v ∧
      ((∀ op ∈ ops, op.isHonest = true) → ∀ k r, map.entries.get? k = some r →
        s.isBound r = true → Session.entry? (s.mapInsert i x key v).1 x k = some r) := by
  refine ⟨fun focus i ref target e => Session.bind_failed, ?_, ?_, ?_⟩
  · intro i r target e failed
    exact (Session.perform_bind_failed failed).after
  · intro focus i target e failed
    rw [Session.bindNew_failed failed]
    exact (Session.SameButReports.of_emitAll _).after
  · intro i x key v e c map here present failed
    have ownership := Session.ownership_after ops
    have later := Session.later_after ownership_empty (ops ++ [.mapInsert i x key v])
    have next : Session.after {} (ops ++ [.mapInsert i x key v]) = (s.mapInsert i x key v).1 := by
      rw [Session.after_append, ← run, Session.after_cons, Session.perform_mapInsert]
      rfl
    rw [next] at later
    rw [← run] at ownership
    have undone := Session.InsertFailed.of_undoes present ownership
      (later.ownership ownership_empty)
      (later.settled Moment.settled_start)
      (Session.mapInsert_failed here (ownership.heaps i c here) present failed)
    refine ⟨undone, fun fair k r stands bound => (undone.entries map present k r).mpr ⟨stands, ?_⟩⟩
    subst run
    exact unreported_of_bound fair present stands bound

/-- A definition that fails after the reference was bound leaves the old entry in force. -/
theorem insertion_fails_at_report :
    let ops : List Op := [.newHeap {}, .alloc 0 .plain, .alloc 0 .immediate, .newRefTo 0 ⟨0, 0⟩,
      .newMap, .mapInsert 0 0 "key" ⟨0, 0⟩, .script 0 [.pass, .fail .heapExhausted]]
    let s := Session.after {} ops
    (s.perform (.bind 0 0 ⟨1, 0⟩)).1.replies [.script 0 [], .read 0 0] =
      [.count 1, .object (some ⟨0, 0⟩)] ∧
    (s.bindNew .idle 0 ⟨1, 0⟩).1.replies [.nextHandle] = [.identity 4] ∧
    s.InsertFailed (s.mapInsert 0 0 "key" ⟨0, 0⟩).1 0 0 ⟨0, 0⟩ ∧
    Session.entry? (s.mapInsert 0 0 "key" ⟨0, 0⟩).1 0 "key" =
      some ⟨⟨2⟩, some ⟨1, .indirect, ⟨1⟩, 0⟩⟩ := by
  intro ops s
  obtain ⟨_, bind, make, insert⟩ := failure_is_undone (show s = .after {} ops from rfl)
  have refused : (s.perform (.bind 0 0 ⟨1, 0⟩)).2 = .failed (.notFinalizable "Immediate") := by
    decide +kernel
  have unmade : (s.bindNew .idle 0 ⟨1, 0⟩).2 = .error (.notFinalizable "Immediate") := by
    rfl
  have failed : (s.mapInsert 0 0 "key" ⟨0, 0⟩).2 = .error .heapExhausted := by
    rfl
  have collected : (s.collector? 0).isSome := by decide +kernel
  obtain ⟨c, here⟩ := Option.isSome_iff_exists.mp collected
  have mapped : (s.map? 0).any fun map =>
      map.entries.get? "key" = some ⟨⟨2⟩, some ⟨1, .indirect, ⟨1⟩, 0⟩⟩ := by decide +kernel
  obtain ⟨map, present, stands⟩ := (Option.any_eq_true _ _).mp mapped
  obtain ⟨undone, kept⟩ := insert 0 0 "key" ⟨0, 0⟩ _ c map here present failed
  refine ⟨(bind 0 0 ⟨1, 0⟩ _ refused _).2.trans ?_, (make .idle 0 ⟨1, 0⟩ _ unmade _).2.trans ?_,
    undone, kept (by decide) "key" _ (of_decide_eq_true stands) (by decide +kernel)⟩
  · decide +kernel
  · decide +kernel

end WeakRefs
