import WeakRefs.Proofs.EntryInvariant

/-!
# What operations on a map answer

Pruning leaves only entries whose value is alive, so `mapGet` and `mapRemove` answer from a binding
in force. An insertion has two finalizers kept on a live value; on a dead one both run at once.
-/

namespace WeakRefs

namespace Tag

def isQuiet : Tag → Bool
  | free | touch (.ref _) => true
  | _ => false

theorem spares_of_isQuiet {t : Tag} (quiet : t.isQuiet = true) (x : Nat) (key : String)
    (s : Session) : t.Spares x key s ∧ t ≠ .alloc := by
  refine ⟨⟨?_, ?_, ?_, ?_⟩, ?_⟩
  · intro same
    rw [same] at quiet
    cases quiet
  · intro same
    rw [same] at quiet
    cases quiet
  · intro same
    rw [same] at quiet
    cases quiet
  · intro r _ defines
    cases t with
    | define f => cases quiet
    | _ => exact defines
  · intro same
    rw [same] at quiet
    cases quiet

end Tag

theorem quiet_pruneMap (s : Session) (x : Nat) :
    Moves (fun t => t.isQuiet = true) ⟨s, none, [], []⟩ ⟨s.pruneMap x, none, [], []⟩ :=
  (Session.pruneMap_strides (T := fun t => t.isQuiet = true) rfl).moves

theorem BoundKept.pruneMap {i : Nat} {s : Session} (boundKept : BoundKept i ⟨s, none, [], []⟩)
    (x : Nat) : BoundKept i ⟨s.pruneMap x, none, [], []⟩ := by
  refine boundKept.run (quiet_pruneMap s x) ?_
  intro t quiet same
  rw [same] at quiet
  cases quiet

section Rest
variable {i x : Nat} {key : String} {s s' : Session} {a : Option ObjectRef} {c : Collector}
variable {map : WeakValueMap}

theorem not_over (here : s.collector? i = some c) (present : s.map? x = some map) :
    ¬ HeapOrMapGone i x s := by
  intro past
  rcases past with ⟨_, gone⟩ | ⟨_, gone⟩
  · rw [here] at gone
    cases gone
  · rw [present] at gone
    cases gone

theorem ValueGone.isBound {r : WeakReference} (valueGone : ValueGone x key r ⟨s, none, [], []⟩) :
    s.isBound r = false := by
  rcases valueGone.ended with unbound | ⟨_, _, flies⟩
  · exact unbound
  · cases flies

theorem BothKept.target? {r : WeakReference} {b : Binding} {v : ObjectRef}
    (bothKept : BothKept i x key r b v ⟨s, none, [], []⟩) : s.target? r = some v :=
  (Session.target?_eq_some_iff _ _).mpr
    ⟨b.cell, WeakReference.cell?_of_binding bothKept.binding, bothKept.bound⟩

namespace Mirrors

/-- An abstract map has what the entries are bound to. -/
theorem targetAt? (mirrors : Mirrors i x key ⟨s, none, [], []⟩ a) :
    s.targetAt? (.entry x key) = a := by
  unfold Session.targetAt?
  cases mirrors with
  | vacant none_there =>
    have held : s.held (.entry x key) = none := none_there
    rw [held]
    rfl
  | @bothKept r b v here bothKept =>
    have held : s.held (.entry x key) = some r := here
    rw [held, Option.bind_some]
    exact bothKept.target?
  | @valueGone r here valueGone =>
    have held : s.held (.entry x key) = some r := here
    rw [held, Option.bind_some]
    cases target : s.target? r with
    | none => rfl
    | some v =>
      have bound := (s.isBound_iff_target? r).mpr ⟨v, target⟩
      rw [valueGone.isBound] at bound
      cases bound

theorem eq_none_of_missing (mirrors : Mirrors i x key ⟨s, none, [], []⟩ a)
    (missing : s.collector? i = none ∨ s.map? x = none) : a = none := by
  cases mirrors with
  | vacant _ => rfl
  | @bothKept r _ _ there bothKept =>
    rcases missing with gone | gone
    · obtain ⟨c, here, _⟩ := bothKept.ends.keptBy
      rw [gone] at here
      cases here
    · have here : s.entry? x key = some r := there
      unfold Session.entry? at here
      rw [gone] at here
      cases here
  | valueGone _ _ => rfl

theorem isLiveIn {m : Moment} {v : ObjectRef} (mirrors : Mirrors i x key m (some v)) :
    m.session.isLiveIn i v = true := by
  cases mirrors with
  | bothKept _ bothKept => exact bothKept.ends.isLiveIn

end Mirrors

namespace Follows
variable (follows : Follows i x key a ⟨s', none, [], []⟩)
variable (mirrors : Mirrors i x key ⟨s, none, [], []⟩ a)
include follows mirrors

/-- When an operation is over, the abstract map has lost what was reclaimed. -/
theorem settled : HeapOrMapGone i x s' ∨ Mirrors i x key ⟨s', none, [], []⟩
    (a.filter fun v => !(s.isLiveIn i v && !s'.isLiveIn i v)) := by
  rcases follows with past | ⟨a', still, same | ⟨none_left, gone⟩⟩
  · exact Or.inl past
  · subst same
    right
    cases a' with
    | none => exact still
    | some v =>
      have live : s'.isLiveIn i v = true := still.isLiveIn
      simpa [live, Option.filter] using still
  · subst none_left
    right
    cases a with
    | none => exact still
    | some v =>
      have live : s.isLiveIn i v = true := mirrors.isLiveIn
      have dead : s'.isLiveIn i v = false := gone v rfl
      simpa [live, dead, Option.filter] using still

/-- An operation that reclaims nothing changes nothing. -/
theorem kept (same : ∀ v, s'.isLiveIn i v = s.isLiveIn i v) :
    HeapOrMapGone i x s' ∨ Mirrors i x key ⟨s', none, [], []⟩ a := by
  rcases follows.settled mirrors with past | still
  · exact Or.inl past
  · right
    have all : (a.filter fun v => !(s.isLiveIn i v && !s'.isLiveIn i v)) = a := by
      cases a <;> simp [same]
    rw [all] at still
    exact still

end Follows

theorem isLiveIn_congr (same : s'.collector? i = s.collector? i) (v : ObjectRef) :
    s'.isLiveIn i v = s.isLiveIn i v := by
  unfold Session.isLiveIn
  rw [same]

section Prune
variable (ownership : Ownership ⟨s, none, [], []⟩) (here : s.collector? i = some c)
variable (present : s.map? x = some map) (mirrors : Mirrors i x key ⟨s, none, [], []⟩ a)
include ownership here present mirrors

/-- Pruning leaves the entries whose value is alive. -/
theorem Mirrors.pruned : (a = none ∧ Session.entry? (s.pruneMap x) x key = none) ∨
    ∃ r b v, a = some v ∧ Session.entry? (s.pruneMap x) x key = some r ∧
      BothKept i x key r b v ⟨s.pruneMap x, none, [], []⟩ := by
  have here' := (s.collector?_pruneMap x i).trans here
  have present' := Session.map?_pruneMap present
  have follows := mirrors.start.run ownership (quiet_pruneMap s x) fun t quiet =>
    t.spares_of_isQuiet quiet x key s
  rcases follows.kept mirrors (isLiveIn_congr (s.collector?_pruneMap x i)) with past | still
  · exact absurd past (not_over here' present')
  · cases still with
    | vacant none_there => exact Or.inl ⟨rfl, none_there⟩
    | bothKept there bothKept => exact Or.inr ⟨_, _, _, rfl, there, bothKept⟩
    | @valueGone r there valueGone =>
      rcases valueGone.reported with flies | listed
      · cases flies
      · cases listed map.prune.1 present'

end Prune

/-- An entry reads as what it mirrors, if that has a root. -/
theorem Mirrors.read {r : WeakReference} (mirrors : Mirrors i x key ⟨s, none, [], []⟩ a)
    (here : s.collector? i = some c) (plain : c.IsPlain) (present : s.entry? x key = some r)
    (rooted : ∀ v, a = some v → c.heap.isReachable v = true) : s.read i r = (s, a) := by
  cases mirrors with
  | vacant none_there =>
    rw [present] at none_there
    cases none_there
  | @bothKept r' b v there bothKept =>
    rw [present] at there
    cases there
    rw [Session.read_of_bound here bothKept.binding bothKept.bound, plain.isReachable]
    exact if_pos (rooted v rfl)
  | valueGone there valueGone =>
    rw [present] at there
    cases there
    exact Session.read_of_unbound valueGone.isBound

section Read
variable {r : WeakReference} {b : Binding} {v : ObjectRef}
variable (boundKept : BoundKept i ⟨s, none, [], []⟩) (here : s.collector? i = some c)
variable (bothKept : BothKept i x key r b v ⟨s, none, [], []⟩)
include here bothKept

theorem BothKept.kind? : c.heap.kind? v = some b.affiliation.kind := by
  obtain ⟨d, there, keptOnce⟩ := bothKept.ends.keptBy
  have there : s.collector? i = some d := there
  rw [here] at there
  cases there
  exact keptOnce.live

include boundKept

theorem BothKept.read : (s.read i r).2 = if c.heap.isReachable v then some v else none := by
  rw [Session.read_of_bound here bothKept.binding bothKept.bound,
    (boundKept.plain c here).isReachable]
  split <;> rfl

theorem BothKept.read_collect (present : s.entry? x key = some r) :
    (s.collect (.map x) i).1.read i r =
      ((s.collect (.map x) i).1, if c.heap.isReachable v then some v else none) := by
  have there := Session.collector?_collect here (.map x)
  have still : Session.entry? (s.collect (.map x) i).1 x key = some r :=
    ((Session.stableView_held (.entry x key)).collect s i).trans present
  obtain ⟨map', present', _⟩ := (Session.entry?_eq_some_iff _).mp still
  have moves := (Session.collect_strides (T := fun t => t.isQuiet = true) (s := s) (i := i) rfl
    (fun _ => rfl) none (.map x)).moves
  generalize (s.collect (.map x) i).1 = u at there still present' moves
  have mirrors := Mirrors.bothKept present bothKept
  have follows := mirrors.start.run boundKept.ownership moves fun t quiet =>
    t.spares_of_isQuiet quiet x key s
  have after := (follows.settled mirrors).resolve_left (not_over there present')
  have swept : u.isLiveIn i v = c.heap.isReachable v := by
    unfold Session.isLiveIn
    rw [there, Option.any_some]
    exact c.heap.isLive_sweep v
  have kept : (some v).filter (fun w => !(s.isLiveIn i w && !u.isLiveIn i w)) =
      if c.heap.isReachable v then some v else none := by
    have live : s.isLiveIn i v = true := mirrors.isLiveIn
    rw [Option.filter_some, live, swept]
    simp
  rw [kept] at after
  have plain := boundKept.plain c here
  refine after.read there ⟨plain.script, plain.stash, plain.reach⟩ still ?_
  intro w answers
  split at answers
  · rename_i reachable
    cases answers
    exact (c.heap.isReachable_sweep v).trans reachable
  · cases answers

/-- The value of an entry after the binding was brought up to date: it has a root, or it is gone. -/
theorem BothKept.read_refresh (present : s.entry? x key = some r) :
    (s.refresh (.map x) i r).read i r =
      (s.refresh (.map x) i r, if c.heap.isReachable v then some v else none) := by
  have same : s.refresh (.map x) i r =
      if b.affiliation.isIndirect then (s.collect (.map x) i).1 else s := by
    unfold Session.refresh WeakReference.isIndirect WeakReference.affiliation?
    rw [bothKept.binding]
    rfl
  cases affiliation : b.affiliation with
  | direct =>
    obtain ⟨reachable, found⟩ := Session.read_of_direct boundKept here (p := .entry x key) present
      bothKept.binding (bothKept.ofHeap c here) bothKept.bound affiliation
    rw [(boundKept.plain c here).isReachable] at reachable
    rw [same, affiliation, reachable]
    exact found
  | indirect =>
    rw [same, affiliation]
    exact bothKept.read_collect boundKept here present

end Read

section Answers
variable (boundKept : BoundKept i ⟨s, none, [], []⟩) (here : s.collector? i = some c)
variable (present : s.map? x = some map) (mirrors : Mirrors i x key ⟨s, none, [], []⟩ a)
include boundKept here present mirrors

/-- A get finds nothing after pruning, or it brings a binding in force up to date and reads it. -/
theorem Mirrors.mapGet : (a = none ∧ s.mapGet i x key = (s.pruneMap x, none)) ∨
    ∃ r b v, a = some v ∧ Session.entry? (s.pruneMap x) x key = some r ∧
      BothKept i x key r b v ⟨s.pruneMap x, none, [], []⟩ ∧
      s.mapGet i x key = if s.isAlive c.heap.runtime then
        (((s.pruneMap x).refresh (.map x) i r).pruneMap x,
          if c.heap.isReachable v then some v else none)
        else ((s.pruneMap x).pruneMap x, none) := by
  have boundKept' := boundKept.pruneMap x
  have here' := (s.collector?_pruneMap x i).trans here
  have alive : (s.pruneMap x).isAlive c.heap.runtime = s.isAlive c.heap.runtime := by
    unfold Session.isAlive
    rw [s.alive_pruneMap x]
  rcases mirrors.pruned boundKept.ownership here present with
    ⟨empty, none_there⟩ | ⟨r, b, v, same, there, bothKept⟩
  · refine Or.inl ⟨empty, ?_⟩
    unfold Session.mapGet
    rw [here]
    dsimp only
    rw [none_there]
  · refine Or.inr ⟨r, b, v, same, there, bothKept, ?_⟩
    have found := bothKept.read_refresh boundKept' here' there
    have object : (s.pruneMap x).object (.map x) i r = if s.isAlive c.heap.runtime then
        ((s.pruneMap x).refresh (.map x) i r).read i r else (s.pruneMap x, none) := by
      unfold Session.object WeakReference.runtime?
      rw [bothKept.binding, Option.map_some, bothKept.ofHeap c here']
      dsimp only
      rw [alive]
    unfold Session.mapGet
    rw [here]
    dsimp only
    rw [there]
    dsimp only
    rw [object, found]
    split <;> rfl

/-- A get makes quiet moves only: its read ends no binding. -/
theorem Mirrors.mapGet_moves :
    Moves (fun t => t.isQuiet = true) ⟨s, none, [], []⟩ ⟨(s.mapGet i x key).1, none, [], []⟩ := by
  rcases mirrors.mapGet boundKept here present with ⟨_, found⟩ | ⟨r, b, v, _, _, _, found⟩
  · rw [found]
    exact quiet_pruneMap s x
  · rw [found]
    split
    · have refreshed := Session.refresh_strides (T := fun t => t.isQuiet = true)
        (s := s.pruneMap x) (i := i) rfl (fun _ => rfl) none (.map x) r
      exact (quiet_pruneMap s x).trans (refreshed.moves.trans (quiet_pruneMap _ x))
    · exact (quiet_pruneMap s x).trans (quiet_pruneMap _ x)

theorem Mirrors.answer_mapGet (alive : s.isAlive c.heap.runtime = true) :
    (s.mapGet i x key).2 = a.filter c.heap.isReachable := by
  rcases mirrors.mapGet boundKept here present with ⟨empty, found⟩ | ⟨r, b, v, same, _, _, found⟩
  · rw [found, empty]
    rfl
  · rw [found, same, if_pos alive]
    rfl

/-- A get runs a collection exactly for a plain value. -/
theorem Mirrors.collections_mapGet (alive : s.isAlive c.heap.runtime = true) :
    ∃ d, (s.mapGet i x key).1.collector? i = some d ∧ d.heap.stats.collections =
      c.heap.stats.collections + if a.any (c.heap.kind? · = some .plain) then 1 else 0 := by
  have here' := (s.collector?_pruneMap x i).trans here
  rcases mirrors.mapGet boundKept here present with
    ⟨empty, found⟩ | ⟨r, b, v, same, _, bothKept, found⟩
  · rw [found, empty]
    exact ⟨c, here', rfl⟩
  · have kind := bothKept.kind? here'
    rw [found, if_pos alive, same, Option.any_some, kind]
    dsimp only
    rw [Session.collector?_pruneMap]
    have indirect : r.isIndirect = b.affiliation.isIndirect := by
      unfold WeakReference.isIndirect WeakReference.affiliation?
      rw [bothKept.binding]
      rfl
    unfold Session.refresh
    rw [indirect]
    cases b.affiliation with
    | direct => exact ⟨c, here', rfl⟩
    | indirect =>
      refine ⟨_, Session.collector?_collect here' (.map x), ?_⟩
      exact congrArg (· + 1) (Heap.collections_reclaimAll c.heap c.heap.unrooted)

theorem Mirrors.mapRemove : (a = none ∧ Session.entry? (s.pruneMap x) x key = none ∧
      s.mapRemove i x key = (s.pruneMap x, none)) ∨
    ∃ r b v, a = some v ∧ Session.entry? (s.pruneMap x) x key = some r ∧
      BothKept i x key r b v ⟨s.pruneMap x, none, [], []⟩ ∧
      s.mapRemove i x key = ((((s.pruneMap x).read i r).1.disarm c.heap.pins r).modifyEntries x
        (·.erase key), ((s.pruneMap x).read i r).2) := by
  rcases mirrors.pruned boundKept.ownership here present with
    ⟨empty, none_there⟩ | ⟨r, b, v, same, there, bothKept⟩
  · refine Or.inl ⟨empty, none_there, ?_⟩
    unfold Session.mapRemove
    rw [here]
    dsimp only
    rw [none_there]
  · refine Or.inr ⟨r, b, v, same, there, bothKept, ?_⟩
    unfold Session.mapRemove
    rw [here]
    dsimp only
    rw [there]

theorem Mirrors.answer_mapRemove : (s.mapRemove i x key).2 = a.filter c.heap.isReachable := by
  have boundKept' := boundKept.pruneMap x
  have here' := (s.collector?_pruneMap x i).trans here
  rcases mirrors.mapRemove boundKept here present with
    ⟨empty, _, found⟩ | ⟨r, b, v, same, _, bothKept, found⟩
  · rw [found, empty]
    rfl
  · rw [found, same, bothKept.read boundKept' here']
    rfl

end Answers

section Congr
variable {r : WeakReference} {b : Binding} {v : ObjectRef} {hand hand' : Option WeakReference}

/-- Both finalizers are kept where neither the heaps nor the cell nor the report changes. -/
theorem BothKept.congr (bothKept : BothKept i x key r b v ⟨s, hand, [], []⟩)
    (collectors : s'.collectors = s.collectors) (bound : s'.cell b.cell = .bound v)
    (dead : ∀ map', s'.map? x = some map' → ∃ map, s.map? x = some map ∧ map'.dead = map.dead) :
    BothKept i x key r b v ⟨s', hand', [], []⟩ where
  binding := bothKept.binding
  bound := bound
  ofHeap c there := bothKept.ofHeap c ((Session.collector?_congr collectors i).symm.trans there)
  ends := bothKept.ends.same collectors id
  reports := bothKept.reports.same collectors id
  unreported map' there listed := by
    obtain ⟨map, here, same⟩ := dead map' there
    rw [same] at listed
    exact bothKept.unreported map here listed

theorem ValueGone.congr (valueGone : ValueGone x key r ⟨s, none, [], []⟩)
    (cells : s'.cells = s.cells)
    (dead : ∀ map', s'.map? x = some map' → ∃ map, s.map? x = some map ∧ map'.dead = map.dead) :
    ValueGone x key r ⟨s', none, [], []⟩ where
  ended := Or.inl ((Session.isBound_congr fun c _ => Session.cell_congr cells c).trans
    valueGone.isBound)
  reported := by
    right
    intro map' there
    obtain ⟨map, here, same⟩ := dead map' there
    rw [same]
    rcases valueGone.reported with flies | listed
    · cases flies
    · exact listed map here

/-- What a key mirrors depends on heaps, cells and the map alone. -/
theorem Mirrors.congr (mirrors : Mirrors i x key ⟨s, none, [], []⟩ a)
    (collectors : s'.collectors = s.collectors) (cells : s'.cells = s.cells)
    (entry : s'.entry? x key = s.entry? x key)
    (dead : ∀ map', s'.map? x = some map' → ∃ map, s.map? x = some map ∧ map'.dead = map.dead) :
    Mirrors i x key ⟨s', none, [], []⟩ a := by
  cases mirrors with
  | vacant none_there => exact .vacant (entry.trans none_there)
  | bothKept here bothKept =>
    exact .bothKept (entry.trans here) (bothKept.congr collectors
      ((Session.cell_congr cells _).trans bothKept.bound) dead)
  | valueGone here valueGone => exact .valueGone (entry.trans here) (valueGone.congr cells dead)

theorem Mirrors.prune (ownership : Ownership ⟨s, none, [], []⟩) (here : s.collector? i = some c)
    (present : s.map? x = some map) (mirrors : Mirrors i x key ⟨s, none, [], []⟩ a) :
    Mirrors i x key ⟨s.pruneMap x, none, [], []⟩ a := by
  rcases mirrors.pruned ownership here present with ⟨empty, none_there⟩ | ⟨r, b, v, same, there,
    bothKept⟩
  · rw [empty]
    exact .vacant none_there
  · rw [same]
    exact .bothKept there bothKept

theorem entry?_filter (s : Session) (x : Nat) (keep : String → WeakReference → Bool)
    (key : String) :
    Session.entry? (s.modifyEntries x (·.filter keep)) x key =
      (s.entry? x key).filter fun r => keep key r := by
  rw [s.entry?_modifyEntries, if_pos rfl, s.entry?_eq]
  cases s.entries? x with
  | none => rfl
  | some entries =>
    apply Option.ext
    intro r
    rw [Option.bind_some, Option.bind_some, Table.get?_filter_eq_some_iff,
      Option.filter_eq_some_iff]

/-- An entry that is kept mirrors what it did. -/
theorem Mirrors.thin (mirrors : Mirrors i x key ⟨s, none, [], []⟩ a)
    {keep : String → WeakReference → Bool} (kept : ∀ r, keep key r = true) :
    Mirrors i x key ⟨s.modifyEntries x (·.filter keep), none, [], []⟩ a := by
  refine mirrors.congr rfl rfl ?_ ?_
  · rw [entry?_filter]
    cases s.entry? x key with
    | none => rfl
    | some r => simp [kept, Option.filter]
  · intro map' there
    unfold Session.modifyEntries at there
    rw [Session.map?_modifyMap, if_pos rfl] at there
    obtain ⟨map, here, same⟩ := Option.map_eq_some_iff.mp there
    rw [← same]
    exact ⟨map, here, rfl⟩

/-- What an operation does to one entry leaves the others alone. -/
theorem Mirrors.elsewhere {k : String} (mirrors : Mirrors i x key ⟨s, none, [], []⟩ a)
    (ownership : Ownership ⟨s, none, [], []⟩) (here : s.collector? i = some c)
    (present : s.map? x = some map) (same : Session.SameButBindings s s') (other : k ≠ key)
    (moves : Moves (· = .touch (.entry x k)) ⟨s, none, [], []⟩ ⟨s', none, [], []⟩) :
    Mirrors i x key ⟨s', none, [], []⟩ a := by
  have follows := mirrors.start.run ownership moves (by
    intro t tag
    subst tag
    refine ⟨⟨?_, nofun, nofun, fun _ _ => id⟩, nofun⟩
    intro same
    cases same
    exact other rfl)
  have live (w : ObjectRef) : s'.isLiveIn i w = s.isLiveIn i w :=
    isLiveIn_congr (same.collector? i) w
  rcases follows.kept mirrors live with past | still
  · exact absurd past (not_over ((same.collector? i).trans here) ((same.map? x).trans present))
  · exact still

end Congr

section Remove
variable (boundKept : BoundKept i ⟨s, none, [], []⟩) (here : s.collector? i = some c)
variable (present : s.map? x = some map)
include boundKept here present

theorem Mirrors.after_mapRemove (mirrors : Mirrors i x key ⟨s, none, [], []⟩ a) {k : String}
    {e : Option ObjectRef} (entry : Mirrors i x k ⟨s, none, [], []⟩ e) :
    Mirrors i x key ⟨(s.mapRemove i x k).1, none, [], []⟩ (if k = key then none else a) := by
  have pruned := mirrors.prune boundKept.ownership here present
  have here' := (s.collector?_pruneMap x i).trans here
  have present' := Session.map?_pruneMap present
  have boundKept' := boundKept.pruneMap x
  rcases entry.mapRemove boundKept here present with
    ⟨_, none_there, found⟩ | ⟨r, b, v, _, there, _, found⟩
  · rw [found]
    split
    · rename_i same
      subst same
      exact .vacant none_there
    · exact pruned
  · rw [found]
    dsimp only
    generalize s.pruneMap x = t at pruned here' present' boundKept' there
    have read := t.sameButBindings_read i r
    have disarmed := read.trans ((t.read i r).1.sameButBindings_disarm c.heap.pins r)
    split
    · rename_i same
      subst same
      refine .vacant ?_
      change Session.entry? (Session.modifyEntries _ x (·.filter fun k' _ => k' ≠ k)) x k = none
      rw [entry?_filter]
      cases Session.entry? _ x k <;> simp [Option.filter]
    · rename_i other
      have first : Moves (· = .touch (.entry x k)) ⟨t, none, [], []⟩
          ⟨(t.read i r).1, none, [], []⟩ :=
        Strides.moves (Session.read_strides (p := .entry x k) rfl there)
      have held : Moment.held ⟨(t.read i r).1, none, [], []⟩ (.entry x k) = some r :=
        (read.entry? x k).trans there
      have second := Moves.single (T := (· = .touch (.entry x k))) rfl
        (Move.disarm ⟨(t.read i r).1, none, [], []⟩ (p := .entry x k)
          ((read.collector? i).trans here') held)
      have still := pruned.elsewhere boundKept'.ownership here' present' disarmed other
        (first.trans second)
      refine still.thin fun _ => ?_
      simpa using fun same => other same.symm

end Remove

section Update

theorem mem_sweepEntries {pairs : List (String × WeakReference)} {r : WeakReference}
    (here : s.collector? i = some c) (listed : (key, r) ∈ pairs)
    (dead : ∀ v, s.target? r = some v → c.isReachable v = false) :
    key ∈ (s.sweepEntries i pairs).2 := by
  induction pairs generalizing s with
  | nil => cases listed
  | cons pair rest ih =>
    obtain ⟨k, q⟩ := pair
    have read := s.sameButBindings_read i q
    have later {u : Session} (collectors : u.collector? i = some c)
        (ends : ∀ d t, u.cell d = .bound t → s.cell d = .bound t) (in_rest : (key, r) ∈ rest) :
        key ∈ (u.sweepEntries i rest).2 := by
      refine ih collectors in_rest ?_
      intro v target
      obtain ⟨d, mine, bound⟩ := (Session.target?_eq_some_iff _ _).mp target
      exact dead v ((Session.target?_eq_some_iff _ _).mpr ⟨d, mine, ends d v bound⟩)
    unfold Session.sweepEntries
    dsimp only
    split
    · rename_i v found
      refine later ((read.collector? i).trans here) (fun d t => s.bound_of_read i) ?_
      rcases List.mem_cons.mp listed with first | in_rest
      · cases first
        have reachable := Session.isReachable_of_read here found
        rw [dead v reachable.1] at reachable
        cases reachable.2
      · exact in_rest
    · rcases List.mem_cons.mp listed with first | in_rest
      · cases first
        exact List.mem_cons_self
      · have discarded := (s.read i q).1.sameButBindings_discard q
        refine List.mem_cons_of_mem _ (later ?_ ?_ in_rest)
        · exact (discarded.collector? i).trans ((read.collector? i).trans here)
        · exact fun d t bound => s.bound_of_read i ((s.read i q).1.bound_of_discard q bound)

variable (boundKept : BoundKept i ⟨s, none, [], []⟩) (here : s.collector? i = some c)
variable (present : s.map? x = some map)
include boundKept here present

theorem Mirrors.after_sweepEntries {pairs : List (String × WeakReference)} {v : ObjectRef}
    (mirrors : Mirrors i x key ⟨s, none, [], []⟩ (some v)) (rooted : c.heap.isReachable v = true)
    (listed : ∀ k r, (k, r) ∈ pairs → s.entry? x k = some r) :
    Mirrors i x key ⟨(s.sweepEntries i pairs).1, none, [], []⟩ (some v) ∧
      key ∉ (s.sweepEntries i pairs).2 := by
  induction pairs generalizing s with
  | nil => exact ⟨mirrors, List.not_mem_nil⟩
  | cons pair rest ih =>
    obtain ⟨k, r⟩ := pair
    have there := listed k r List.mem_cons_self
    have read := s.sameButBindings_read i r
    have first : Moves (· = .touch (.entry x k)) ⟨s, none, [], []⟩
        ⟨(s.read i r).1, none, [], []⟩ :=
      Strides.moves (Session.read_strides (p := .entry x k) rfl there)
    have later {u : Session} (same : Session.SameButBindings s u) (other : k ≠ key)
        (moves : Moves (· = .touch (.entry x k)) ⟨s, none, [], []⟩ ⟨u, none, [], []⟩) :
        Mirrors i x key ⟨(u.sweepEntries i rest).1, none, [], []⟩ (some v) ∧
          key ∉ (u.sweepEntries i rest).2 := by
      refine ih (boundKept.run moves fun t tag same => nomatch tag.symm.trans same)
        ((same.collector? i).trans here) ((same.map? x).trans present)
        (mirrors.elsewhere boundKept.ownership here present same other moves) ?_
      intro k' r' in_rest
      exact (same.entry? x k').trans (listed k' r' (List.mem_cons_of_mem _ in_rest))
    unfold Session.sweepEntries
    dsimp only
    by_cases same : k = key
    · subst same
      have unchanged : s.read i r = (s, some v) := by
        refine mirrors.read here (boundKept.plain c here) there ?_
        intro w same
        cases same
        exact rooted
      rw [unchanged]
      exact ih boundKept here present mirrors fun k' r' in_rest =>
        listed k' r' (List.mem_cons_of_mem _ in_rest)
    · split
      · exact later read same first
      · have held : Moment.held ⟨(s.read i r).1, none, [], []⟩ (.entry x k) = some r :=
          (read.entry? x k).trans there
        have second := Moves.single (T := (· = .touch (.entry x k))) rfl
          (Move.discard ⟨(s.read i r).1, none, [], []⟩ (p := .entry x k) held)
        obtain ⟨still, kept⟩ := later (read.trans ((s.read i r).1.sameButBindings_discard r)) same
          (first.trans second)
        refine ⟨still, ?_⟩
        intro swept
        rcases List.mem_cons.mp swept with named | swept
        · exact same named.symm
        · exact kept swept

/-- Sweeping deletes the keys whose value has no root. -/
theorem Mirrors.swept (mirrors : (a = none ∧ s.entry? x key = none) ∨ ∃ r b v, a = some v ∧
      s.entry? x key = some r ∧ BothKept i x key r b v ⟨s, none, [], []⟩) :
    Mirrors i x key ⟨(s.sweepEntries i map.entries.pairs).1.modifyEntries x (·.filter
      fun k _ => !(s.sweepEntries i map.entries.pairs).2.contains k), none, [], []⟩
      (a.filter c.heap.isReachable) := by
  have listed (k : String) (r : WeakReference) (pair : (k, r) ∈ map.entries.pairs) :
      s.entry? x k = some r :=
    s.entry?_eq_some_iff.mpr ⟨map, present, Table.get?_eq_some_iff.mpr pair⟩
  have same := s.sameButBindings_sweepEntries i map.entries.pairs
  have entry (keep : String → WeakReference → Bool) :=
    entry?_filter (s.sweepEntries i map.entries.pairs).1 x keep key
  rw [same.entry? x key] at entry
  rcases mirrors with ⟨empty, none_there⟩ | ⟨r, b, v, value, there, bothKept⟩
  · rw [empty]
    refine .vacant ((entry _).trans ?_)
    rw [none_there]
    rfl
  · rw [value]
    cases rooted : c.heap.isReachable v with
    | true =>
      have still := Mirrors.after_sweepEntries boundKept here present (.bothKept there bothKept)
        rooted
        listed
      rw [Option.filter_some, if_pos rooted]
      refine still.1.thin fun _ => ?_
      simpa using still.2
    | false =>
      have swept : key ∈ (s.sweepEntries i map.entries.pairs).2 := by
        obtain ⟨_, found, pair⟩ := s.entry?_eq_some_iff.mp there
        rw [present] at found
        cases found
        refine mem_sweepEntries here (Table.get?_eq_some_iff.mp pair) ?_
        intro w target
        rw [bothKept.target?] at target
        cases target
        rw [(boundKept.plain c here).isReachable, rooted]
      rw [Option.filter_some, rooted]
      refine .vacant ((entry _).trans ?_)
      rw [there]
      simp [Option.filter, swept]

theorem Mirrors.after_mapUpdate (mirrors : Mirrors i x key ⟨s, none, [], []⟩ a) :
    Mirrors i x key ⟨s.mapUpdate i x, none, [], []⟩ (a.filter c.heap.isReachable) := by
  have here' := (s.collector?_pruneMap x i).trans here
  have present' := Session.map?_pruneMap present
  have swept := Mirrors.swept (boundKept.pruneMap x) here' present'
    (mirrors.pruned boundKept.ownership here present)
  unfold Session.mapUpdate
  rw [here]
  dsimp only
  rw [present']
  dsimp only
  split
  · exact swept
  · exact swept.congr rfl rfl rfl fun map' there => ⟨map', there, rfl⟩

end Update

end Rest

end WeakRefs
