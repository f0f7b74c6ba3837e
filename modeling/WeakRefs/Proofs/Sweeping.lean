import WeakRefs.Proofs.ExpiredEntries
import WeakRefs.Proofs.OneHeap

/-!
# What an update sweeps

An update reads the entries that pruning has left, and lets go of those whose value has no root. In
whatever order the entries are read, the same ones go, each with its pin.
-/

namespace WeakRefs

namespace Session

/-- A reference has no target that its collector holds reachable. -/
def Lapsed (s : Session) (c : Collector) (r : WeakReference) : Prop :=
  ∀ v, s.target? r = some v → c.isReachable v = false

/-- An update of a pruned map whose entries are read in this order. -/
def sweepMap (s : Session) (i m : Nat) (order : List (String × WeakReference)) : Session :=
  let swept := s.sweepEntries i order
  let s := swept.1.modifyEntries m (·.filter fun key _ => !swept.2.contains key)
  if swept.2.isEmpty then s else s.emit (.swept swept.2.length)

variable {s s' : Session} {i x : Nat} {c : Collector} {r : WeakReference}
variable {pairs : List (String × WeakReference)}

theorem mapUpdate_eq (here : s.collector? i = some c) {map : WeakValueMap}
    (present : s.map? x = some map) :
    s.mapUpdate i x = (s.pruneMap x).sweepMap i x map.prune.1.entries.pairs := by
  unfold mapUpdate
  rw [here]
  dsimp only
  rw [map?_pruneMap present]
  rfl

section Entries
variable (here : s.collector? i = some c)
include here

theorem read_none_iff : (s.read i r).2 = none ↔ s.Lapsed c r := by
  rw [answer_read here, Option.filter_eq_none_iff]
  simp only [Bool.not_eq_true, Lapsed]

theorem read_of_lapsed (lapsed : s.Lapsed c r) :
    (s.isBound r = false ∧ s.read i r = (s, none)) ∨
    ∃ b, r.binding = some b ∧ (s.cell b.cell).isBound = true ∧ s.isBound r = true ∧ s.read i r =
      ((s.clearDead c.heap.pins b.cell r.id).emit (.clearedOnRead r.id), none) := by
  cases bound : s.isBound r with
  | false => exact Or.inl ⟨rfl, read_of_unbound bound⟩
  | true =>
    obtain ⟨v, target⟩ := (s.isBound_iff_target? r).mp bound
    obtain ⟨b, binding, bound⟩ := binding_of_target? target
    refine Or.inr ⟨b, binding, (Cell.isBound_iff _).mpr ⟨v, bound⟩, rfl, ?_⟩
    rw [read_of_bound here binding bound, lapsed v target, if_neg Bool.false_ne_true]

theorem cell_of_lapsed (lapsed : s.Lapsed c r) (d : Nat) :
    ((s.read i r).1.discard r).cell d = if r.cell? = some d then .superseded else s.cell d := by
  rw [cell_discard]
  split
  · rfl
  · rename_i other
    rcases read_of_lapsed here lapsed with ⟨_, read⟩ | ⟨b, binding, _, _, read⟩
    · rw [read]
    · rw [read, cell_emit, cell_clearDead, if_neg]
      rintro rfl
      exact other (WeakReference.cell?_of_binding binding)

theorem bound_of_lapsed (lapsed : s.Lapsed c r) {d : Nat} {v : ObjectRef} :
    ((s.read i r).1.discard r).cell d = .bound v ↔ s.cell d = .bound v ∧ r.cell? ≠ some d := by
  rw [cell_of_lapsed here lapsed]
  split
  · rename_i mine
    exact ⟨nofun, fun both => absurd mine both.2⟩
  · rename_i other
    exact (and_iff_left other).symm

theorem target?_of_lapsed (lapsed : s.Lapsed c r) {q : WeakReference} {v : ObjectRef} :
    ((s.read i r).1.discard r).target? q = some v ↔ s.target? q = some v ∧ r.cell? ≠ q.cell? := by
  simp only [target?_eq_some_iff, bound_of_lapsed here lapsed]
  constructor
  · rintro ⟨d, its, at_d, other⟩
    exact ⟨⟨d, its, at_d⟩, its ▸ other⟩
  · rintro ⟨⟨d, its, at_d⟩, other⟩
    exact ⟨d, its, at_d, its ▸ other⟩

theorem isBound_of_lapsed (lapsed : s.Lapsed c r) {q : WeakReference} :
    ((s.read i r).1.discard r).isBound q = true ↔ s.isBound q = true ∧ r.cell? ≠ q.cell? := by
  simp only [isBound_iff_target?, target?_of_lapsed here lapsed, exists_and_right]

theorem lapsed_iff_of_lapsed (lapsed : s.Lapsed c r) {q : WeakReference} :
    ((s.read i r).1.discard r).Lapsed c q ↔ s.Lapsed c q := by
  unfold Lapsed
  simp only [target?_of_lapsed here lapsed]
  constructor
  · intro gone v target
    by_cases mine : r.cell? = q.cell?
    · refine lapsed v ((s.target?_eq_some_iff r).mpr ?_)
      rw [mine]
      exact (s.target?_eq_some_iff q).mp target
    · exact gone v ⟨target, mine⟩
  · exact fun gone v both => gone v both.1

theorem mem_pinned_of_lapsed (lapsed : s.Lapsed c r) (P : Nat) (h : HandleId) :
    h ∈ ((s.read i r).1.discard r).pinned P ↔
      h ∈ s.pinned P ∧ ¬ (s.isBound r = true ∧ P = c.heap.pins ∧ h = r.id) := by
  rw [mem_pinned_discard]
  rcases read_of_lapsed here lapsed with ⟨unbound, read⟩ | ⟨b, binding, bound, is_bound, read⟩
  · rw [read, unbound]
    refine and_congr_right fun _ => not_congr ⟨?_, fun same => nomatch same.1⟩
    rintro ⟨b, binding, bound, _⟩
    have past := (s.isBound_eq_false_iff r).mp unbound b.cell
      (WeakReference.cell?_of_binding binding)
    rw [past] at bound
    cases bound
  · -- After the read the cell is not bound, so letting go gives back no second pin.
    have past : (((s.clearDead c.heap.pins b.cell r.id).emit (.clearedOnRead r.id)).cell
        b.cell).isBound = false := by
      rw [cell_emit, cell_clearDead, if_pos rfl, Cell.isBound_clear]
    rw [read, pinned_emit, mem_pinned_clearDead, bound, is_bound]
    refine and_iff_left ?_
    rintro ⟨b', binding', bound', _⟩
    cases binding.symm.trans binding'
    exact nomatch past.symm.trans bound'

end Entries

/-- What reading the listed entries and letting go of the lapsed ones does. The order of the list is
not in it. -/
structure SweepsEntries (c : Collector) (pairs : List (String × WeakReference)) (s s' : Session)
    (keys : List String) : Prop where
  same : SameButBindings s s'
  keys : ∀ key, key ∈ keys ↔ ∃ r, (key, r) ∈ pairs ∧ s.Lapsed c r
  cell : ∀ d v, s'.cell d = .bound v ↔
    s.cell d = .bound v ∧ ∀ key r, (key, r) ∈ pairs → s.Lapsed c r → r.cell? ≠ some d
  pinned : ∀ P h, h ∈ s'.pinned P ↔ h ∈ s.pinned P ∧ ¬ (P = c.heap.pins ∧
    ∃ key r, (key, r) ∈ pairs ∧ s.Lapsed c r ∧ s.isBound r = true ∧ r.id = h)

namespace SweepsEntries
variable {key : String} {keys : List String}

theorem nil (c : Collector) (s : Session) : SweepsEntries c [] s s [] :=
  ⟨.refl s, by simp, by simp, by simp⟩

/-- An entry that reads as something stays. -/
theorem keep (rest : SweepsEntries c pairs s s' keys) (reads : ¬ s.Lapsed c r) :
    SweepsEntries c ((key, r) :: pairs) s s' keys := by
  have listed (k : String) (q : WeakReference) (lapsed : s.Lapsed c q) :
      (k, q) ∈ (key, r) :: pairs ↔ (k, q) ∈ pairs := by
    rw [List.mem_cons]
    refine or_iff_right ?_
    rintro ⟨⟩
    exact reads lapsed
  refine ⟨rest.same, fun k => ?_, fun d v => ?_, fun P h => ?_⟩
  · rw [rest.keys]
    exact exists_congr fun q => and_congr_left fun lapsed => (listed k q lapsed).symm
  · rw [rest.cell]
    refine and_congr_right fun _ => forall_congr' fun k => forall_congr' fun q => ?_
    exact ⟨fun free there lapsed => free ((listed k q lapsed).mp there) lapsed,
      fun free there lapsed => free ((listed k q lapsed).mpr there) lapsed⟩
  · rw [rest.pinned]
    refine and_congr_right fun _ => not_congr (and_congr_right fun _ => ?_)
    refine exists_congr fun k => exists_congr fun q => ?_
    constructor
    · exact fun ⟨there, lapsed, more⟩ => ⟨(listed k q lapsed).mpr there, lapsed, more⟩
    · exact fun ⟨there, lapsed, more⟩ => ⟨(listed k q lapsed).mp there, lapsed, more⟩

theorem lapse (here : s.collector? i = some c) (lapsed : s.Lapsed c r)
    (apart : ∀ k q d, (k, q) ∈ pairs → q.cell? = some d → r.cell? = some d → q = r)
    (rest : SweepsEntries c pairs ((s.read i r).1.discard r) s' keys) :
    SweepsEntries c ((key, r) :: pairs) s s' (key :: keys) := by
  have same_lapsed (q : WeakReference) := lapsed_iff_of_lapsed here lapsed (q := q)
  refine ⟨?_, fun k => ?_, fun d v => ?_, fun P h => ?_⟩
  · exact (s.sameButBindings_read i r).trans
      (((s.read i r).1.sameButBindings_discard r).trans rest.same)
  · rw [List.mem_cons, rest.keys]
    simp only [same_lapsed]
    constructor
    · rintro (rfl | ⟨q, listed, gone⟩)
      · exact ⟨r, List.mem_cons_self, lapsed⟩
      · exact ⟨q, List.mem_cons_of_mem _ listed, gone⟩
    · rintro ⟨q, listed, gone⟩
      rcases List.mem_cons.mp listed with first | listed
      · cases first
        exact Or.inl rfl
      · exact Or.inr ⟨q, listed, gone⟩
  · rw [rest.cell, bound_of_lapsed here lapsed, and_assoc]
    simp only [same_lapsed]
    refine and_congr_right fun _ => ⟨?_, fun free => ⟨free key r List.mem_cons_self lapsed, ?_⟩⟩
    · rintro ⟨other, free⟩ k q listed gone
      rcases List.mem_cons.mp listed with first | listed
      · cases first
        exact other
      · exact free k q listed gone
    · exact fun k q listed => free k q (List.mem_cons_of_mem _ listed)
  · rw [rest.pinned, mem_pinned_of_lapsed here lapsed, and_assoc, ← not_or]
    simp only [same_lapsed, isBound_of_lapsed here lapsed]
    refine and_congr_right fun _ => not_congr ⟨?_, ?_⟩
    · rintro (⟨is_bound, at_P, rfl⟩ | ⟨at_P, k, q, listed, gone, is_bound, named⟩)
      · exact ⟨at_P, key, r, List.mem_cons_self, lapsed, is_bound, rfl⟩
      · exact ⟨at_P, k, q, List.mem_cons_of_mem _ listed, gone, is_bound.1, named⟩
    · rintro ⟨at_P, k, q, listed, gone, is_bound, named⟩
      rcases List.mem_cons.mp listed with first | listed
      · cases first
        exact Or.inl ⟨is_bound, at_P, named.symm⟩
      · by_cases mine : r.cell? = q.cell?
        · obtain ⟨d, its, _⟩ := (s.isBound_iff q).mp is_bound
          cases apart k q d listed its (mine.trans its)
          exact Or.inl ⟨is_bound, at_P, named.symm⟩
        · exact Or.inr ⟨at_P, k, q, listed, gone, ⟨is_bound, mine⟩, named⟩

end SweepsEntries

theorem sweepsEntries (here : s.collector? i = some c)
    (apart : ∀ k a k' b d, (k, a) ∈ pairs → (k', b) ∈ pairs → a.cell? = some d → b.cell? = some d →
      a = b) : SweepsEntries c pairs s (s.sweepEntries i pairs).1 (s.sweepEntries i pairs).2 := by
  induction pairs generalizing s with
  | nil => exact .nil c s
  | cons pair rest ih =>
    obtain ⟨key, r⟩ := pair
    have others {t : Session} (there : t.collector? i = some c) :=
      ih there fun k a k' b d one other =>
      apart k a k' b d (List.mem_cons_of_mem _ one) (List.mem_cons_of_mem _ other)
    unfold sweepEntries
    dsimp only
    split
    · rename_i v found
      have reads : ¬ s.Lapsed c r := fun lapsed =>
        nomatch found.symm.trans ((read_none_iff here).mpr lapsed)
      rw [read_of_found found]
      exact (others here).keep reads
    · rename_i found
      have lapsed := (read_none_iff here).mp found
      have same := (s.sameButBindings_read i r).trans ((s.read i r).1.sameButBindings_discard r)
      refine (others ((same.collector? i).trans here)).lapse here lapsed fun k q d listed its
        mine => ?_
      exact apart k q key r d (List.mem_cons_of_mem _ listed) List.mem_cons_self its mine

/-- What an update of map `x` leaves, where the one heap has collector `c`. -/
structure Updates (c : Collector) (x : Nat) (s s' : Session) : Prop where
  /-- The entries whose value has a root stay, with the references that they are. -/
  entries : ∀ key r, s'.entry? x key = some r ↔
    s.entry? x key = some r ∧ ∃ v, s.target? r = some v ∧ c.heap.isReachable v = true
  /-- Whoever is still there is bound as before. -/
  target : ∀ p r, s'.held p = some r → s'.target? r = s.target? r
  others : ∀ p, (∀ key, p ≠ .entry x key) → s'.held p = s.held p
  /-- The pins of entries that went are gone, and no others. -/
  pinned : ∀ P h, h ∈ s'.pinned P ↔ h ∈ s.pinned P ∧ ¬ (P = c.heap.pins ∧
    ∃ key r, s.entry? x key = some r ∧ r.id = h ∧ s'.entry? x key ≠ some r)
  /-- Nothing is collected or reclaimed, and nothing runs. -/
  collectors : s'.collectors = s.collectors
  runs : s'.runs = s.runs
  dead : ∀ map', s'.map? x = some map' → map'.dead = []

theorem held_modifyEntries {f : Table String WeakReference → Table String WeakReference} {p : Place}
    (other : ∀ key, p ≠ .entry x key) : (s.modifyEntries x f).held p = s.held p := by
  cases p with
  | ref n => rfl
  | entry y key =>
    refine (s.entry?_modifyEntries y key).trans (if_neg ?_)
    rintro rfl
    exact other key rfl
  | hand => rfl

theorem sweepMap_views (s : Session) (i x : Nat) (order : List (String × WeakReference)) :
    (∀ key, Session.entry? (s.sweepMap i x order) x key =
        (Session.entry? (s.sweepEntries i order).1 x key).filter
          fun _ => !(s.sweepEntries i order).2.contains key) ∧
      (∀ p, (∀ key, p ≠ .entry x key) →
        (s.sweepMap i x order).held p = (s.sweepEntries i order).1.held p) ∧
      (s.sweepMap i x order).cells = (s.sweepEntries i order).1.cells ∧
      (s.sweepMap i x order).pinSets = (s.sweepEntries i order).1.pinSets ∧
      (s.sweepMap i x order).collectors = (s.sweepEntries i order).1.collectors ∧
      (s.sweepMap i x order).runs = (s.sweepEntries i order).1.runs ∧
      (∀ map', (s.sweepMap i x order).map? x = some map' →
        ∃ map, (s.sweepEntries i order).1.map? x = some map ∧ map'.dead = map.dead) := by
  unfold sweepMap
  generalize s.sweepEntries i order = reading
  obtain ⟨u, keys⟩ := reading
  dsimp only
  have entries (key : String) := entry?_filter u x (fun key _ => !keys.contains key) key
  have others (p : Place) (other : ∀ key, p ≠ .entry x key) :=
    held_modifyEntries (s := u) (f := (·.filter fun key _ => !keys.contains key)) other
  have maps (map' : WeakValueMap)
      (there : (u.modifyEntries x (·.filter fun key _ => !keys.contains key)).map? x = some map') :
      ∃ map, u.map? x = some map ∧ map'.dead = map.dead := by
    unfold modifyEntries at there
    rw [map?_modifyMap, if_pos rfl, Option.map_eq_some_iff] at there
    obtain ⟨map, present, rfl⟩ := there
    exact ⟨map, present, rfl⟩
  split
  · exact ⟨entries, others, rfl, rfl, rfl, rfl, maps⟩
  · exact ⟨entries, others, rfl, rfl, rfl, rfl, maps⟩

end Session

section Update
open Session
variable {c : Collector} {s : Session} {x : Nat} {map : WeakValueMap}
variable {order : List (String × WeakReference)} (onlyHeap : OnlyHeap c s)
variable (present : s.map? x = some map)
include onlyHeap present

theorem OnlyHeap.sweepMap_updates (clean : map.dead = []) (perm : order.Perm map.entries.pairs) :
    Updates c x s (s.sweepMap 0 x order) := by
  have listed (k : String) (q : WeakReference) : (k, q) ∈ order ↔ s.entry? x k = some q := by
    rw [perm.mem_iff, ← Table.get?_eq_some_iff]
    refine (s.entry?_eq_some_iff.trans ⟨?_, fun there => ⟨map, present, there⟩⟩).symm
    rintro ⟨map', present', there⟩
    cases present.symm.trans present'
    exact there
  have held {p : Place} {q : WeakReference} (there : s.held p = some q) :
      Moment.held ⟨s, none, [], []⟩ p = some q := (Moment.held_atRest s p).trans there
  have apart {k : String} {a : WeakReference} {p : Place} {b : WeakReference} {d : Nat}
      (one : (k, a) ∈ order) (other : s.held p = some b) (its : a.cell? = some d)
      (mine : b.cell? = some d) : .entry x k = p ∧ a = b := by
    have stands : s.held (.entry x k) = some a := (listed k a).mp one
    have same := onlyHeap.ownership.own _ p a b d (held stands) (held other) its mine
    subst same
    exact ⟨rfl, Option.some.inj (stands.symm.trans other)⟩
  have swept : SweepsEntries c order s (s.sweepEntries 0 order).1 (s.sweepEntries 0 order).2 :=
    sweepsEntries onlyHeap.here fun k a k' b d one other its mine =>
      (apart one (p := .entry x k') ((listed k' b).mp other) its mine).2
  obtain ⟨entry, kept, cells, pinSets, collectors, runs, maps⟩ := s.sweepMap_views 0 x order
  generalize s.sweepMap 0 x order = s' at entry kept cells pinSets collectors runs maps ⊢
  generalize s.sweepEntries 0 order = reading at *
  obtain ⟨u, keys⟩ := reading
  dsimp only at *
  have stays (k : String) (q : WeakReference) :
      s'.entry? x k = some q ↔ s.entry? x k = some q ∧ ¬ s.Lapsed c q := by
    rw [entry, swept.same.entry?, Option.filter_eq_some_iff, Bool.not_eq_true',
      List.contains_eq_mem, decide_eq_false_iff_not, swept.keys]
    refine and_congr_right fun stands => not_congr ?_
    constructor
    · rintro ⟨q', there, lapsed⟩
      cases stands.symm.trans ((listed k q').mp there)
      exact lapsed
    · exact fun lapsed => ⟨q, (listed k q).mpr stands, lapsed⟩
  have rooted (q : WeakReference) : ¬ s.Lapsed c q ↔
      ∃ v, s.target? q = some v ∧ c.heap.isReachable v = true := by
    unfold Lapsed
    simp only [onlyHeap.isReachable, not_forall, exists_prop, Bool.not_eq_false]
  have others (p : Place) (other : ∀ key, p ≠ .entry x key) : s'.held p = s.held p :=
    (kept p other).trans (held_congr swept.same.refs swept.same.maps p)
  refine ⟨fun k q => (stays k q).trans (and_congr_right fun _ => rooted q), fun p r there => ?_,
    others, fun P h => ?_, collectors.trans swept.same.collectors, runs.trans swept.same.runs,
    fun map' there => ?_⟩
  · have before : s.held p = some r ∧ ∀ k, p = .entry x k → ¬ s.Lapsed c r := by
      by_cases inside : ∃ k, p = .entry x k
      · obtain ⟨k, rfl⟩ := inside
        obtain ⟨stood, reads⟩ := (stays k r).mp there
        exact ⟨stood, fun _ _ => reads⟩
      · rw [not_exists] at inside
        exact ⟨(others p inside).symm.trans there, fun k same => absurd same (inside k)⟩
    apply Option.ext
    intro v
    rw [target?_eq_some_iff, target?_eq_some_iff]
    refine exists_congr fun d => and_congr_right fun mine => ?_
    rw [cell_congr cells, swept.cell]
    refine and_iff_left fun k q one lapsed its => ?_
    obtain ⟨place, rfl⟩ := apart one before.1 its mine
    exact before.2 k place.symm lapsed
  · rw [pinned_congr pinSets, swept.pinned]
    refine and_congr_right fun pinned => not_congr (and_congr_right fun at_P => ?_)
    subst at_P
    constructor
    · rintro ⟨k, q, one, lapsed, _, named⟩
      have stood := (listed k q).mp one
      exact ⟨k, q, stood, named, fun left => ((stays k q).mp left).2 lapsed⟩
    · rintro ⟨k, q, stood, named, gone⟩
      subst named
      have bound := (onlyHeap.pinning.mem_pinned_iff (p := .entry x k) stood).mp pinned
      have lapsed : s.Lapsed c q := by
        by_contra reads
        exact gone ((stays k q).mpr ⟨stood, reads⟩)
      exact ⟨k, q, (listed k q).mpr stood, lapsed, bound, rfl⟩
  · obtain ⟨before, there, same⟩ := maps map' there
    rw [swept.same.map?, present] at there
    cases there
    exact same.trans clean

omit present in
theorem OnlyHeap.pruneMap : OnlyHeap c (s.pruneMap x) := by
  obtain ⟨c', _, pruned⟩ := onlyHeap.moves (quiet_pruneMap s x) fun t quiet => by
    cases t with
    | free => exact ⟨trivial, nofun⟩
    | touch p => exact ⟨trivial, nofun⟩
    | _ => cases quiet
  have same := (collector?_pruneMap s x 0).symm.trans pruned.here
  cases onlyHeap.here.symm.trans same
  exact pruned

theorem OnlyHeap.mapUpdate_updates {A : WeakMap} (refines : Refines 0 x A s)
    (perm : order.Perm map.prune.1.entries.pairs) :
    Updates c x s ((s.pruneMap x).sweepMap 0 x order) := by
  have swept := onlyHeap.pruneMap.sweepMap_updates (map?_pruneMap present) map.dead_prune perm
  have pruned {p : Place} {r : WeakReference} (there : (s.pruneMap x).held p = some r) :=
    pruneMap_stays present onlyHeap.ownership there
  have mirrors (k : String) : Mirrors 0 x k ⟨s, none, [], []⟩ (A k) :=
    refines.mirrors.resolve_left (not_over onlyHeap.here present) k
  have reported (k : String) (r : WeakReference) (stands : map.entries.get? k = some r)
      (bound : s.isBound r = true) : (k, r.id) ∉ map.dead := by
    rcases (mirrors k).current_or_expired present stands with
      ⟨⟨_, _, _, unreported⟩, _⟩ | ⟨⟨past, _⟩, _⟩
    · exact unreported
    · exact nomatch past.symm.trans bound
  have left {k : String} {r : WeakReference} (stood : s.entry? x k = some r)
      (bound : s.isBound r = true) : (s.pruneMap x).held (.entry x k) = some r := by
    obtain ⟨map', present', stands⟩ := s.entry?_eq_some_iff.mp stood
    cases present.symm.trans present'
    refine entry?_eq_some_iff _ |>.mpr ⟨_, map?_pruneMap present, ?_⟩
    exact (map.get?_prune k r).mpr ⟨stands, reported k r stands bound⟩
  have pins (P : Nat) : (s.pruneMap x).pinned P = s.pinned P := by
    refine ClearOf.pinned_pruneMap fun map' k r present' stands listed => ?_
    cases present.symm.trans present'
    refine fun b _ => Or.inl ?_
    rw [← Bool.not_eq_true]
    exact fun bound => reported k r stands bound listed
  obtain ⟨collectors, refs, _, _, elsewhere⟩ := pruneMap_keeps present
  refine ⟨fun k r => ?_, fun p r there => ?_, fun p other => ?_, fun P h => ?_,
    swept.collectors.trans collectors, swept.runs.trans (leavesHeaps_pruneMap s x).runs, swept.dead⟩
  · rw [swept.entries]
    constructor
    · rintro ⟨stays, v, target, rooted⟩
      obtain ⟨stood, same, _⟩ := pruned (p := .entry x k) stays
      exact ⟨stood, v, same.symm.trans target, rooted⟩
    · rintro ⟨stood, v, target, rooted⟩
      have stays := left stood ((s.isBound_iff_target? r).mpr ⟨v, target⟩)
      exact ⟨stays, v, (pruned stays).2.1.trans target, rooted⟩
  · have stays : (s.pruneMap x).held p = some r := by
      by_cases inside : ∃ k, p = .entry x k
      · obtain ⟨k, rfl⟩ := inside
        exact ((swept.entries k r).mp there).1
      · rw [not_exists] at inside
        exact (swept.others p inside).symm.trans there
    exact (swept.target p r there).trans (pruned stays).2.1
  · refine (swept.others p other).trans ?_
    cases p with
    | ref n => exact congrArg (fun refs : Array (Option WeakReference) => refs[n]?.join) refs
    | entry y k =>
      refine congrArg (Option.bind · fun map => map.entries.get? k) (elsewhere y ?_)
      rintro rfl
      exact other k rfl
    | hand => rfl
  · rw [swept.pinned, pins]
    refine and_congr_right fun pinned => not_congr (and_congr_right fun at_P => ?_)
    subst at_P
    constructor
    · rintro ⟨k, r, stays, named, gone⟩
      exact ⟨k, r, (pruned (p := .entry x k) stays).1, named, gone⟩
    · rintro ⟨k, r, stood, rfl, gone⟩
      have bound := (onlyHeap.pinning.mem_pinned_iff (p := .entry x k) stood).mp pinned
      exact ⟨k, r, left stood bound, rfl, gone⟩

end Update

theorem WeakValueMap.evict_of_absent {h : HandleId} (reports : List (String × HandleId))
    {entries : Table String WeakReference}
    (absent : ∀ key r, entries.get? key = some r → r.id ≠ h) :
    evict entries reports = evict entries (reports.filter fun e => e.2 ≠ h) := by
  induction reports generalizing entries with
  | nil => rfl
  | cons first rest ih =>
    obtain ⟨k, handle⟩ := first
    by_cases its : handle = h
    · subst its
      rw [List.filter_cons_of_neg (by simp), ← ih absent]
      conv_lhs => unfold evict
      split
      · rename_i r there
        rw [if_neg (absent k r there)]
      · rfl
    · rw [List.filter_cons_of_pos (by simpa using its)]
      unfold evict
      split
      · rename_i r there
        split
        · rw [ih fun key q left => ?_]
          rw [Table.get?_erase] at left
          split at left
          · cases left
          · exact absent key q left
        · exact ih absent
      · exact ih absent

theorem WeakValueMap.prune_of_absent {h : HandleId} {map : WeakValueMap}
    (absent : ∀ key r, map.entries.get? key = some r → r.id ≠ h) :
    map.prune = ({ map with dead := map.dead.filter fun e => e.2 ≠ h } : WeakValueMap).prune := by
  unfold prune
  rw [evict_of_absent map.dead absent]

/-- A handle was given out, and nobody has it. -/
structure HandleGone (h : HandleId) (m : Moment) : Prop where
  issued : h.raw ≤ m.session.handles
  absent : ∀ p a, m.held p = some a → a.id ≠ h

theorem Moment.Later.handles_le {m m' : Moment} (later : Later m m') (ownership : Ownership m) :
    m.session.handles ≤ m'.session.handles :=
  later.keeps ownership (I := fun n => m.session.handles ≤ n.session.handles)
    (fun _ ownership move le => Nat.le_trans le (move.handles_le ownership.heaps)) (Nat.le_refl _)

namespace HandleGone
variable {h : HandleId} {m m' : Moment}

theorem move (handleGone : HandleGone h m) (ownership : Ownership m) {t : Tag}
    (move : Move t m m') :
    HandleGone h m' := by
  refine ⟨Nat.le_trans handleGone.issued (move.handles_le ownership.heaps), fun p a there => ?_⟩
  by_cases arrives : t = .arrive p
  · subst arrives
    rcases move.rearranges.came p a there with ⟨_, fresh⟩ | ⟨q, before⟩
    · rintro rfl
      have issued := handleGone.issued
      rw [fresh] at issued
      exact Nat.not_succ_le_self _ issued
    · exact handleGone.absent q a before
  · obtain ⟨b, before, same⟩ := move.held_of_stays ownership there arrives
    exact same ▸ handleGone.absent p b before

theorem later (handleGone : HandleGone h m) (ownership : Ownership m) (later : Moment.Later m m') :
    HandleGone h m' :=
  later.keeps ownership (fun _ ownership move handleGone => handleGone.move ownership move)
    handleGone

end HandleGone

/-- What is left of an entry that went: from this session on nobody has its handle, what is on a
dead list under its handle takes no entry out, and its finalizer changes nothing. -/
structure Forgotten (r : WeakReference) (s : Session) : Prop where
  absent : ∀ m, Moment.Later ⟨s, none, [], []⟩ m → ∀ p a, m.held p = some a → a.id ≠ r.id
  reports : ∀ m, Moment.Later ⟨s, none, [], []⟩ m → ∀ y map, m.session.map? y = some map →
    map.prune = ({ map with dead := map.dead.filter fun e => e.2 ≠ r.id } : WeakValueMap).prune
  ending : ∀ b, r.binding = some b → (Finalizer.endBinding b.cell r.id).IsSpent s

theorem Forgotten.of_gone {s s' : Session} (ownership : Ownership ⟨s, none, [], []⟩)
    (settled : Moment.Settled ⟨s, none, [], []⟩)
    (later : Moment.Later ⟨s, none, [], []⟩ ⟨s', none, [], []⟩) {p : Place} {r : WeakReference}
    (stood : s.held p = some r) (gone : s'.held p ≠ some r)
    (came : ∀ q a, s'.held q = some a → s.held q = some a) : Forgotten r s' := by
  have here := (Moment.held_atRest s p).trans stood
  have handleGone : HandleGone r.id ⟨s', none, [], []⟩ := by
    refine ⟨Nat.le_trans (ownership.issued p r here) (later.handles_le ownership),
      fun q a there same => ?_⟩
    rw [Moment.held_atRest] at there
    have before := came q a there
    cases ownership.ids q p a r ((Moment.held_atRest s q).trans before) here same
    cases before.symm.trans stood
    exact gone there
  refine ⟨fun m then_on => (handleGone.later (later.ownership ownership) then_on).absent, ?_, ?_⟩
  · intro m then_on y map present
    refine map.prune_of_absent fun key a stands => ?_
    exact (handleGone.later (later.ownership ownership) then_on).absent (.entry y key) a
      (m.session.entry?_eq_some_iff.mpr ⟨map, present, stands⟩)
  · intro b binding
    have owned := later.owned ownership (Moment.owned_of_held ownership here binding)
    have past : ¬ Moment.InForce ⟨s', none, [], []⟩ r.id b :=
      fun ⟨q, a, there, same, _⟩ => handleGone.absent q a there same
    exact Finalizer.isSpent_of_unbound (later.ownership ownership)
      (later.settled settled) owned.made
      (Moment.unbound_of_not_inForce (later.ownership ownership) owned past) r.id

/-- Whoever is there after an update was there before. -/
theorem Session.Updates.came {c : Collector} {x : Nat} {s s' : Session} (updates : Updates c x s s')
    {p : Place} {r : WeakReference} (there : s'.held p = some r) : s.held p = some r := by
  by_cases inside : ∃ key, p = .entry x key
  · obtain ⟨key, rfl⟩ := inside
    exact ((updates.entries key r).mp there).1
  · rw [not_exists] at inside
    exact (updates.others p inside).symm.trans there

/-- An update of a map leaves exactly the entries whose value has a root, in whatever order the
entries are read. What the values of the others have still to run takes no later entry away. -/
theorem update_keeps_rooted_entries {before later : List Op} (config : HeapConfig) {x : Nat}
    (first : ∀ op ∈ before, op.isDisciplined = true)
    (then_on : ∀ op ∈ later, op.isDisciplined = true)
    (plain : ∀ op ∈ before ++ later, op.scripts 0 = false)
    (only : ∀ op ∈ before ++ later, op.keepsTo 0 x = true) {s : Session}
    (run : s = Session.after {} (before ++ .newHeap config :: later)) {map : WeakValueMap}
    (present : s.map? x = some map) {s' : Session} (done : s' = (s.perform (.mapUpdate 0 x)).1) :
    ∃ c, s.collector? 0 = some c ∧
      s' = (s.pruneMap x).sweepMap 0 x map.prune.1.entries.pairs ∧
      (∀ order, order.Perm map.prune.1.entries.pairs →
        Session.Updates c x s ((s.pruneMap x).sweepMap 0 x order)) ∧
      (∀ key r, s.entry? x key = some r → s'.entry? x key ≠ some r → Forgotten r s') ∧
      ∀ rest op, (∀ one ∈ op :: rest, one.scripts 0 = false ∧ one.keepsTo 0 x = true) →
        ∀ key r v, Session.entry? (s'.after rest) x key = some r → (s'.after rest).target? r =
          some v →
          (((s'.after rest).perform op).1.map? x).isSome →
          ((s'.after rest).perform op).1.isLiveIn 0 v = true →
          Session.entry? ((s'.after rest).perform op).1 x key = some r ∨ op = .mapRemove 0 x key ∨
            (∃ w, op = .mapInsert 0 x key w ∧ ((s'.after rest).mapInsert 0 x key w).2 = .ok ()) ∨
            (op = .mapUpdate 0 x ∧ (s'.after rest).isRootedIn 0 v = false) := by
  obtain ⟨c, onlyHeap⟩ := Session.onlyHeap config first then_on
    (fun op listed => plain op (List.mem_append_right _ listed)) run
  have calm (op : Op) (listed : op ∈ before ++ .newHeap config :: later) :
      op.scripts 0 = false ∧ op.keepsTo 0 x = true := by
    rcases List.mem_append.mp listed with early | rest
    · exact ⟨plain op (List.mem_append_left _ early), only op (List.mem_append_left _ early)⟩
    · rcases List.mem_cons.mp rest with rfl | late
      · exact ⟨rfl, rfl⟩
      · exact ⟨plain op (List.mem_append_right _ late), only op (List.mem_append_right _ late)⟩
  have refines := (Refines.empty (i := 0) (x := x)).run (fun op listed => (calm op listed).1)
    fun op listed => (calm op listed).2
  rw [← run] at refines
  have updates {order : List (String × WeakReference)}
      (perm : order.Perm map.prune.1.entries.pairs) :=
    onlyHeap.mapUpdate_updates present refines perm
  have swept : s' = (s.pruneMap x).sweepMap 0 x map.prune.1.entries.pairs :=
    done.trans (s.mapUpdate_eq onlyHeap.here present)
  refine ⟨c, onlyHeap.here, swept, fun order perm => updates perm, fun key r stood gone => ?_, ?_⟩
  · have settled := (Session.later_after ownership_empty
      (before ++ .newHeap config :: later)).settled
      Moment.settled_start
    rw [← run] at settled
    have later := Session.later_after onlyHeap.ownership [.mapUpdate 0 x]
    change Moment.Later _ ⟨(s.perform (.mapUpdate 0 x)).1, none, [], []⟩ at later
    rw [← done] at later
    refine Forgotten.of_gone onlyHeap.ownership settled later (p := .entry x key) stood gone ?_
    rw [swept]
    exact fun q a there => (updates (List.Perm.refl _)).came there
  · intro rest op quiet key r v stands target there live
    have own : (Op.mapUpdate 0 x).keepsTo 0 x = true := by simp [Op.keepsTo]
    have next := refines.perform rfl own
    rw [← done] at next
    have then_on := next.run
      (fun one (listed : one ∈ rest) => (quiet one (List.mem_cons_of_mem _ listed)).1)
      fun one listed => (quiet one (List.mem_cons_of_mem _ listed)).2
    obtain ⟨plain, only⟩ := quiet op List.mem_cons_self
    obtain ⟨map', there⟩ := Option.isSome_iff_exists.mp there
    exact then_on.entry_stays plain only there stands target live

/-- Of two released values one has a second root. The entry that comes to stand under the key of the
other is still there after the late report. -/
theorem updated_map_after_release : ∃ s map, s = Session.after {} ([] ++ .newHeap {} ::
      [.alloc 0 .plain, .alloc 0 .plain, .retain 0 ⟨1, 0⟩, .newMap, .mapInsert 0 0 "a" ⟨0, 0⟩,
        .mapInsert 0 0 "b" ⟨1, 0⟩, .release 0 ⟨0, 0⟩, .release 0 ⟨1, 0⟩]) ∧
    s.map? 0 = some map ∧
    (∃ c, s.collector? 0 = some c ∧ ∀ order, order.Perm map.prune.1.entries.pairs →
      Session.Updates c 0 s ((s.pruneMap 0).sweepMap 0 0 order)) ∧
    Session.entry? (s.perform (.mapUpdate 0 0)).1 0 "a" = none ∧
    Session.entry? (s.perform (.mapUpdate 0 0)).1 0 "b" = s.entry? 0 "b" ∧
    ⟨1⟩ ∉ (s.perform (.mapUpdate 0 0)).1.pinned 0 ∧
    ⟨2⟩ ∈ (s.perform (.mapUpdate 0 0)).1.pinned 0 ∧
    Option.map (·.id) (Session.entry? (s.after [.mapUpdate 0 0, .mapInsert 0 0 "a" ⟨1, 0⟩,
      .collect 0, .mapUpdate 0 0]) 0 "a") = some ⟨3⟩ := by
  obtain ⟨s, run⟩ : ∃ s, s = Session.after {} ([] ++ .newHeap {} ::
    [.alloc 0 .plain, .alloc 0 .plain, .retain 0 ⟨1, 0⟩, .newMap, .mapInsert 0 0 "a" ⟨0, 0⟩,
      .mapInsert 0 0 "b" ⟨1, 0⟩, .release 0 ⟨0, 0⟩, .release 0 ⟨1, 0⟩]) := ⟨_, rfl⟩
  obtain ⟨map, present⟩ : ∃ map, s.map? 0 = some map := by
    rw [run]
    exact ⟨_, rfl⟩
  obtain ⟨c, here, _, updates, _⟩ := update_keeps_rooted_entries {} (by decide) (by decide)
    (by decide) (by decide) run present rfl
  refine ⟨s, map, run, present, ⟨c, here, updates⟩, ?_⟩
  rw [run]
  decide +kernel

end WeakRefs
