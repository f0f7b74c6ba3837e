import WeakRefs.Proofs.MapChanges
import WeakRefs.Proofs.BoundTargets

/-!
# Entries and their values

Two finalizers are kept on a value of a map until it is reclaimed, and then both run. So between
operations every entry is bound to a live value or stands on the dead list. `Mirrors` says which
value of an abstract map an entry stands for.
-/

namespace WeakRefs

def HeapOrMapGone (i x : Nat) (s : Session) : Prop :=
  (i < s.collectors.size ∧ s.collector? i = none) ∨ (x < s.maps.size ∧ s.map? x = none)

/-- A reference bound to a value on which both of its finalizers are kept. -/
structure BothKept (i x : Nat) (key : String) (r : WeakReference) (b : Binding) (v : ObjectRef)
    (m : Moment) : Prop where
  binding : r.binding = some b
  bound : m.session.cell b.cell = .bound v
  ofHeap : ∀ c, m.session.collector? i = some c → b.runtime = c.heap.runtime
  ends : KeptInHeap i (.endBinding b.cell r.id) b.affiliation.kind v m
  reports : KeptInHeap i (.report x key r.id) b.affiliation.kind v m
  unreported : ∀ map, m.session.map? x = some map → (key, r.id) ∉ map.dead

/-- A reference whose value is gone: its two finalizers have run, or run next. -/
structure ValueGone (x : Nat) (key : String) (r : WeakReference) (m : Moment) : Prop where
  ended : m.session.isBound r = false ∨
    ∃ b, r.binding = some b ∧ .endBinding b.cell r.id ∈ m.flight
  reported : .report x key r.id ∈ m.flight ∨
    ∀ map, m.session.map? x = some map → (key, r.id) ∈ map.dead

/-- What an abstract map has under a key, by the entry that stands there. -/
inductive Mirrors (i x : Nat) (key : String) (m : Moment) : Option ObjectRef → Prop where
  | vacant : m.session.entry? x key = none → Mirrors i x key m none
  | bothKept {r : WeakReference} {b : Binding} {v : ObjectRef} : m.session.entry? x key = some r →
    BothKept i x key r b v m → Mirrors i x key m (some v)
  | valueGone {r : WeakReference} : m.session.entry? x key = some r → ValueGone x key r m →
    Mirrors i x key m none

/-- In the midst of an operation: what was under the key at the start is there, or was reclaimed. -/
def Follows (i x : Nat) (key : String) (a : Option ObjectRef) (m : Moment) : Prop :=
  HeapOrMapGone i x m.session ∨ ∃ a', Mirrors i x key m a' ∧
    (a' = a ∨ (a' = none ∧ ∀ v, a = some v → m.session.isLiveIn i v = false))

/-- A move that has nothing to do with the entry of a key. -/
structure Tag.Spares (t : Tag) (x : Nat) (key : String) (s : Session) : Prop where
  touch : t ≠ .touch (.entry x key)
  arrive : t ≠ .arrive (.entry x key)
  thin : t ≠ .thin x
  defines : ∀ r, s.entry? x key = some r → ¬ t.defines (.report x key r.id)

namespace Session
variable {s : Session} {i : Nat} {v : ObjectRef}

theorem isLiveIn_eq_false_iff :
    s.isLiveIn i v = false ↔ ∀ c, s.collector? i = some c → c.heap.object? v = none := by
  unfold isLiveIn
  cases s.collector? i <;> simp [Heap.isLive]

end Session

theorem KeptInHeap.isLiveIn {i : Nat} {f : Finalizer} {kind : ObjectKind} {v : ObjectRef}
    {m : Moment} (inHeap : KeptInHeap i f kind v m) : m.session.isLiveIn i v = true := by
  obtain ⟨c, here, keptOnce⟩ := inHeap.keptBy
  obtain ⟨o, live, _⟩ := Option.map_eq_some_iff.mp keptOnce.live
  refine Session.isLiveIn_iff.mpr ⟨c, here, ?_⟩
  rw [Heap.isLive, live]
  rfl

section Moves
variable {i x : Nat} {key : String} {t : Tag} {m m' : Moment}

theorem HeapOrMapGone.move (past : HeapOrMapGone i x m.session) (move : Move t m m') :
    HeapOrMapGone i x m'.session := by
  rcases past with ⟨inside, gone⟩ | ⟨inside, gone⟩
  · have grown := move.evolves.size_le
    refine Or.inl ⟨Nat.lt_of_lt_of_le inside grown, ?_⟩
    cases there : m'.session.collector? i with
    | none => rfl
    | some c' =>
      rcases move.evolves.descends there with ⟨c, here, _⟩ | ⟨_, last, _⟩
      · rw [gone] at here
        cases here
      · omega
  · have grown := move.reshapes.size_le
    refine Or.inr ⟨Nat.lt_of_lt_of_le inside grown, ?_⟩
    cases there : m'.session.map? x with
    | none => rfl
    | some map' =>
      rcases move.reshapes.before there with ⟨last, _⟩ | here | ⟨map, here, _⟩
      · omega
      · rw [gone] at here
        cases here
      · rw [gone] at here
        cases here

theorem Move.gone_stays (sound : m.session.HeapsSound) (move : Move t m m') (calm : t ≠ .alloc)
    {v : ObjectRef} (gone : m.session.isLiveIn i v = false) : m'.session.isLiveIn i v = false := by
  rw [Session.isLiveIn_eq_false_iff] at gone ⊢
  intro c' there
  rcases move.evolves.descends there with ⟨c, here, becomes⟩ | ⟨_, _, config, new⟩
  · exact becomes.gone calm (sound i c here) v (gone c here)
  · rw [new]
    simp [Heap.object?]

namespace BothKept
variable {r : WeakReference} {b : Binding} {v : ObjectRef} {p : Place}

/-- Both finalizers are kept until the value is reclaimed. -/
theorem move (bothKept : BothKept i x key r b v m) (ownership : Ownership m) (move : Move t m m')
    (held : m.held p = some r) (place : p = .hand ∨ p = .entry x key) (calm : t ≠ .touch p)
    (old : ¬ t.defines (.report x key r.id)) (inside : x < m.session.maps.size) :
    HeapOrMapGone i x m'.session ∨ BothKept i x key r b v m' ∨
      (ValueGone x key r m' ∧ m'.session.isLiveIn i v = false) := by
  have mine : r.cell? = some b.cell := WeakReference.cell?_of_binding bothKept.binding
  have not_new : b.cell ≠ m.session.cells.size :=
    Nat.ne_of_lt (ownership.inside p r b.cell held mine)
  have at_i : i < m.session.collectors.size := by
    obtain ⟨c, here, _⟩ := bothKept.ends.keptBy
    exact m.session.lt_size_of_collector? here
  have heap_gone (gone : m'.session.collector? i = none) : HeapOrMapGone i x m'.session :=
    Or.inl ⟨Nat.lt_of_lt_of_le at_i move.evolves.size_le, gone⟩
  have ends := move.inHeap ownership.heaps bothKept.ends (move.calm _ _)
    fun h same => not_new (Finalizer.endBinding.inj same).1
  have reports := move.inHeap ownership.heaps bothKept.reports old fun h same => nomatch same
  -- The two finalizers have the same fate, since they sit on the same value.
  rcases ends with ends | ⟨flies, dead⟩ | gone
  · rcases reports with reports | ⟨_, dead⟩ | gone
    · rcases move.bound_stays ownership held bothKept.binding bothKept.bound calm with
        bound | flies | ⟨y, k, at_p, left⟩
      · refine Or.inr (Or.inl ⟨bothKept.binding, bound, ?_, ends, reports, ?_⟩)
        · intro c there
          rcases BoundKept.descends move there with ⟨c', here, runtime, _⟩ | ⟨_, last, _⟩
          · exact (bothKept.ofHeap c' here).trans runtime.symm
          · omega
        · intro map' there listed
          rcases move.dead_before there listed with ⟨map, here, before⟩ | flies
          · exact bothKept.unreported map here before
          · exact bothKept.reports.rests flies
      · exact absurd flies bothKept.ends.rests
      · rcases place with hand | entry
        · rw [hand] at at_p
          cases at_p
        · rw [entry] at at_p
          cases at_p
          rcases left with gone | ⟨map, here, listed⟩
          · exact Or.inl (Or.inr ⟨Nat.lt_of_lt_of_le inside move.reshapes.size_le, gone⟩)
          · exact absurd listed (bothKept.unreported map here)
    · have live := ends.isLiveIn
      rw [Session.isLiveIn_eq_false_iff.mpr dead] at live
      cases live
    · exact Or.inl (heap_gone gone)
  · rcases reports with reports | ⟨flies', _⟩ | gone
    · have live := reports.isLiveIn
      rw [Session.isLiveIn_eq_false_iff.mpr dead] at live
      cases live
    · exact Or.inr (Or.inr ⟨⟨Or.inr ⟨b, bothKept.binding, flies⟩, Or.inl flies'⟩,
        Session.isLiveIn_eq_false_iff.mpr dead⟩)
    · exact Or.inl (heap_gone gone)
  · exact Or.inl (heap_gone gone)

end BothKept

/-- A binding is over, or its finalizer runs next. -/
def BindingEnds (r : WeakReference) (m : Moment) : Prop :=
  m.session.isBound r = false ∨ ∃ b, r.binding = some b ∧ .endBinding b.cell r.id ∈ m.flight

theorem BindingEnds.move {r : WeakReference} (ends : BindingEnds r m) (ownership : Ownership m)
    (move : Move t m m') {p : Place} (held : m.held p = some r) : BindingEnds r m' := by
  rcases ends with unbound | ⟨b, binding, flies⟩
  · left
    rw [Session.isBound_eq_false_iff] at unbound ⊢
    intro c mine
    cases state : (m'.session.cell c).isBound with
    | false => rfl
    | true =>
      obtain ⟨y, bound⟩ := (Cell.isBound_iff _).mp state
      have before := move.bound_of_old ownership (ownership.inside _ r c held mine) bound
      have free := unbound c mine
      rw [before] at free
      cases free
  · rcases move.flies flies with flies | done
    · exact Or.inr ⟨b, binding, flies⟩
    · exact Or.inl ((m'.session.isBound_of_binding binding).trans done)

theorem ValueGone.move {r : WeakReference} (valueGone : ValueGone x key r m)
    (ownership : Ownership m) (move : Move t m m') (here : m.session.entry? x key = some r)
    (there : m'.session.entry? x key = some r) : ValueGone x key r m' := by
  have held : m.held (.entry x key) = some r := here
  obtain ⟨map, present, _⟩ := (m.session.entry?_eq_some_iff).mp here
  constructor
  · exact BindingEnds.move valueGone.ended ownership move held
  · rcases valueGone.reported with flies | listed
    · exact move.flies flies
    · right
      intro map' present'
      rcases move.dead_stays present (listed map present) present' with still | nobody
      · exact still
      · obtain ⟨_, same, kept⟩ := (m'.session.entry?_eq_some_iff).mp there
        rw [present'] at same
        cases same
        exact absurd rfl (nobody r kept)

namespace Mirrors
variable {a : Option ObjectRef}

theorem start (mirrors : Mirrors i x key m a) : Follows i x key a m :=
  Or.inr ⟨a, mirrors, Or.inl rfl⟩

theorem move (mirrors : Mirrors i x key m a) (ownership : Ownership m) (move : Move t m m')
    (spares : t.Spares x key m.session) : Follows i x key a m' := by
  cases mirrors with
  | vacant none_there =>
    have still : m'.session.entry? x key = none := by
      cases there : m'.session.entry? x key with
      | none => rfl
      | some r =>
        rw [move.entry_before there spares.arrive] at none_there
        cases none_there
    exact start (.vacant still)
  | @bothKept r b v here bothKept =>
    obtain ⟨map, present, _⟩ := (m.session.entry?_eq_some_iff).mp here
    have inside := m.session.lt_size_of_map? present
    rcases move.entry_stays here spares.thin spares.arrive with there | gone | ⟨_, same, listed⟩
    · rcases bothKept.move ownership move (p := .entry x key) here (Or.inr rfl) spares.touch
        (spares.defines r here) inside with past | bothKept | ⟨valueGone, gone⟩
      · exact Or.inl past
      · exact start (.bothKept there bothKept)
      · refine Or.inr ⟨none, .valueGone there valueGone, Or.inr ⟨rfl, ?_⟩⟩
        intro v' same
        cases same
        exact gone
    · exact Or.inl (Or.inr ⟨Nat.lt_of_lt_of_le inside move.reshapes.size_le, gone⟩)
    · exact absurd listed (bothKept.unreported _ same)
  | @valueGone r here valueGone =>
    cases there : m'.session.entry? x key with
    | none => exact start (.vacant there)
    | some r' =>
      have before := move.entry_before there spares.arrive
      rw [here] at before
      cases before
      exact start (.valueGone there (valueGone.move ownership move here there))

end Mirrors

namespace Follows
variable {a : Option ObjectRef}

theorem move (follows : Follows i x key a m) (ownership : Ownership m) (move : Move t m m')
    (spares : t.Spares x key m.session) (calm : t ≠ .alloc) : Follows i x key a m' := by
  rcases follows with past | ⟨a', mirrors, same | ⟨none_left, gone⟩⟩
  · exact Or.inl (past.move move)
  · subst same
    exact mirrors.move ownership move spares
  · subst none_left
    rcases mirrors.move ownership move spares with past | ⟨a'', mirrors, same | ⟨none_left, _⟩⟩
    · exact Or.inl past
    · subst same
      exact Or.inr ⟨none, mirrors, Or.inr ⟨rfl, fun v was =>
        move.gone_stays ownership.heaps calm (gone v was)⟩⟩
    · subst none_left
      exact Or.inr ⟨none, mirrors, Or.inr ⟨rfl, fun v was =>
        move.gone_stays ownership.heaps calm (gone v was)⟩⟩

theorem run {T : Tag → Prop} (follows : Follows i x key a m) (ownership : Ownership m)
    (moves : Moves T m m') (spares : ∀ t, T t → t.Spares x key m.session ∧ t ≠ .alloc) :
    Follows i x key a m' := by
  have both : Follows i x key a m' ∧
      ∀ r, m'.session.entry? x key = some r → m.session.entry? x key = some r := by
    refine moves.keeps ownership (I := fun n => Follows i x key a n ∧
      ∀ r, n.session.entry? x key = some r → m.session.entry? x key = some r) ?_
      ⟨follows, fun _ here => here⟩
    intro t n n' allowed ownership move both
    obtain ⟨follows, old⟩ := both
    obtain ⟨spared, calm⟩ := spares t allowed
    have spared : t.Spares x key n.session :=
      ⟨spared.touch, spared.arrive, spared.thin, fun r here => spared.defines r (old r here)⟩
    refine ⟨follows.move ownership move spared calm, ?_⟩
    intro r there
    exact old r (move.entry_before there spared.arrive)
  exact both.1

end Follows

end Moves

end WeakRefs
