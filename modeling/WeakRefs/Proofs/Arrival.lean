import WeakRefs.Proofs.Ending
import WeakRefs.Proofs.Focus
import WeakRefs.Proofs.Move

/-!
# Arrivals

What stands where after one of the moves that bring something: a binding, a new reference, or the
reference in hand that comes to its place.
-/

namespace WeakRefs

namespace Session
variable (s : Session)

theorem entry?_modifyEntries {x : Nat} {f : Table String WeakReference → Table String WeakReference}
    (y : Nat) (key : String) : Session.entry? (s.modifyEntries x f) y key =
      if x = y then (s.entries? y).bind fun entries => (f entries).get? key
      else s.entry? y key := by
  unfold modifyEntries entry? entries?
  rw [map?_modifyMap]
  split
  · cases s.map? y <;> rfl
  · rfl

theorem held_addRef (x : Option WeakReference) (hand : Option WeakReference)
    (running : List Action) (flight : List Finalizer) (q : Place) :
    Moment.held ⟨s.addRef x, hand, running, flight⟩ q =
      if q = .ref s.refs.size then x else Moment.held ⟨s, hand, running, flight⟩ q := by
  cases q with
  | ref r =>
    simp only [Moment.held, ref?_addRef, Place.ref.injEq]
  | entry y key => rfl
  | hand => rfl

/-- An entry comes to a map that is there. -/
theorem held_insert {x : Nat} {map : WeakValueMap} (here : s.map? x = some map) (key : String)
    (ref : WeakReference) (hand : Option WeakReference) (running : List Action)
    (flight : List Finalizer) (q : Place) :
    Moment.held ⟨s.modifyEntries x (·.insert key ref), hand, running, flight⟩ q =
      if q = .entry x key then some ref else Moment.held ⟨s, hand, running, flight⟩ q := by
  cases q with
  | ref r => rfl
  | hand => rfl
  | entry y k =>
    simp only [Moment.held, entry?_modifyEntries, Place.entry.injEq]
    by_cases same : x = y
    · subst same
      have entries : s.entries? x = some map.entries := by
        unfold entries?
        rw [here]
        rfl
      rw [if_pos rfl, entry?_eq, entries, Option.bind_some, Option.bind_some, Table.get?_insert]
      simp
    · have other : ¬ y = x := fun e => same e.symm
      simp [same, other]

end Session

section Arrival
variable {s : Session} {hand : Option WeakReference} {running : List Action}
variable {flight : List Finalizer} {i : Nat} {c : Collector} {p : Place} {ref ref' : WeakReference}
variable {target : ObjectRef} {ran : Bool} {a : Affiliation} {handle : HandleId}

/-- Where a binding arrives, the reference with it stands in its place. -/
theorem held_arrive (held : Moment.held ⟨s, hand, running, flight⟩ p = some ref)
    (loose : ∀ x key, p ≠ .entry x key) (q : Place) :
    (Moment.put ⟨s.arrive i c handle target ran a, hand, running, flight⟩ p ref').held q =
      if q = p then some ref' else Moment.held ⟨s, hand, running, flight⟩ q := by
  have there : Moment.held ⟨s.arrive i c handle target ran a, hand, running, flight⟩ p = some ref :=
    (Moment.held_congr (m := ⟨s, hand, running, flight⟩) rfl rfl rfl p).trans held
  rw [Moment.held_put there loose]
  split
  · rfl
  · exact Moment.held_congr (m := ⟨s, hand, running, flight⟩) rfl rfl rfl q

theorem cell_put_arrive (d : Nat) :
    (Moment.put ⟨s.arrive i c handle target ran a, hand, running, flight⟩ p ref').session.cell d =
      if d = s.cells.size then (if ran then .cleared else .bound target) else s.cell d := by
  have same := Moment.put_same ⟨s.arrive i c handle target ran a, hand, running, flight⟩ p ref'
  have view : (Moment.put ⟨s.arrive i c handle target ran a, hand, running, flight⟩ p
      ref').session.cell d = (s.arrive i c handle target ran a).cell d := by
    unfold Session.cell
    rw [same.cells]
  exact view.trans (s.cell_arrive d)

end Arrival

/-- No binding begins or ends; references come new, or from another place, and one that is bound
does not leave. -/
structure Rearranges (m m' : Moment) : Prop where
  came : ∀ p a, m'.held p = some a →
    (a.binding = none ∧ a.id = m.session.freshHandle.2) ∨ ∃ q, m.held q = some a
  stays : ∀ p a, m.held p = some a → m.session.isBound a = true → ∃ q, m'.held q = some a
  cells : m'.session.cells = m.session.cells
  collectors : m'.session.collectors = m.session.collectors
  runs : m'.session.runs = m.session.runs
  flight : m'.flight = m.flight

theorem Rearranges.isBound {m m' : Moment} (rearranges : Rearranges m m') (a : WeakReference) :
    m'.session.isBound a = m.session.isBound a := by
  apply Session.isBound_congr
  intro c _
  unfold Session.cell
  rw [rearranges.cells]

/-- What the arrival of a binding does: the reference in place `p` has it, with a cell that nobody
had, and its finalizer is received by collector `i`, which becomes `c'`. -/
structure Attaches (i : Nat) (target : ObjectRef) (p : Place) (ref : WeakReference) (b : Binding)
    (c c' : Collector) (ran : Bool) (m m' : Moment) : Prop where
  here : m.session.collector? i = some c
  was : m.held p = some ref
  unbound : m.session.isBound ref = false
  calm : m.flight = []
  received : c.Receives target (.endBinding b.cell ref.id) c' ran b.affiliation
  fresh : b.cell = m.session.cells.size
  runtime : b.runtime = c.heap.runtime
  pins : b.pins = c.heap.pins
  held : ∀ q, m'.held q = if q = p then some { ref with binding := some b } else m.held q
  same : Moment.PutSame ⟨m.session.arrive i c' ref.id target ran b.affiliation, m.hand, m.running,
    m.flight⟩ m'

namespace Attaches
variable {i : Nat} {target : ObjectRef} {p : Place} {ref : WeakReference} {b : Binding}
variable {c c' : Collector} {ran : Bool} {m m' : Moment}

theorem size (attaches : Attaches i target p ref b c c' ran m m') :
    m'.session.cells.size = m.session.cells.size + 1 := by
  rw [attaches.same.cells]
  exact Array.size_push _

theorem cell (attaches : Attaches i target p ref b c c' ran m m') (d : Nat) :
    m'.session.cell d =
      if d = b.cell then (if ran then .cleared else .bound target) else m.session.cell d := by
  rw [attaches.fresh]
  exact (Session.cell_congr attaches.same.cells d).trans (m.session.cell_arrive d)

theorem cell_of_lt (attaches : Attaches i target p ref b c c' ran m m') {d : Nat}
    (old : d < m.session.cells.size) : m'.session.cell d = m.session.cell d := by
  rw [attaches.cell, attaches.fresh, if_neg (Nat.ne_of_lt old)]

/-- Whoever stands somewhere now is the one who has the new binding, or stood there before. -/
theorem held_cases (attaches : Attaches i target p ref b c c' ran m m') {q : Place}
    {d : WeakReference} (there : m'.held q = some d) :
    (q = p ∧ d = { ref with binding := some b }) ∨ (q ≠ p ∧ m.held q = some d) := by
  rw [attaches.held] at there
  split at there
  · rename_i at_p
    exact Or.inl ⟨at_p, (Option.some.inj there).symm⟩
  · rename_i elsewhere
    exact Or.inr ⟨elsewhere, there⟩

/-- The new binding is in force, unless its finalizer ran at once. -/
theorem isBound_new (attaches : Attaches i target p ref b c c' ran m m') :
    m'.session.isBound { ref with binding := some b } = !ran := by
  simp only [Session.isBound, Option.any_some, attaches.cell, if_pos]
  cases ran <;> rfl

/-- The only finalizer that runs here is the one that was received. -/
theorem runs_cases (attaches : Attaches i target p ref b c c' ran m m') {f : Finalizer}
    (done : f ∈ m'.session.runs) :
    f ∈ m.session.runs ∨ (ran = true ∧ f = .endBinding b.cell ref.id) := by
  rw [attaches.same.runs] at done
  cases ran with
  | false => exact Or.inl done
  | true =>
    rcases Array.mem_push.mp done with before | now
    · exact Or.inl before
    · rw [attaches.fresh]
      exact Or.inr ⟨rfl, now⟩

end Attaches

theorem Moment.apart_of_put {m m' : Moment} {p : Place} {r : WeakReference}
    {R : WeakReference → WeakReference → Prop}
    (held : ∀ q, m'.held q = if q = p then some r else m.held q)
    (apart : ∀ q q' a b, m.held q = some a → m.held q' = some b → R a b → q = q')
    (other : ∀ q b, q ≠ p → m.held q = some b → ¬ R r b ∧ ¬ R b r) {q q' : Place}
    {a b : WeakReference} (here : m'.held q = some a) (there : m'.held q' = some b)
    (same : R a b) : q = q' := by
  rw [held] at here there
  split at here
  · rename_i at_p
    cases here
    split at there
    · rename_i at_p'
      exact at_p.trans at_p'.symm
    · rename_i elsewhere
      exact absurd same (other q' b elsewhere there).1
  · rename_i elsewhere
    split at there
    · cases there
      exact absurd same (other q a elsewhere here).2
    · exact apart q q' a b here there same

theorem Moment.stood_of_settle {m m' : Moment} {p : Place} {ref : WeakReference}
    (inHand : m.hand = some ref)
    (held : ∀ q, m'.held q = if q = p then some ref else if q = .hand then none else m.held q)
    {q : Place} {a : WeakReference} (there : m'.held q = some a) :
    (q = p ∧ m.held .hand = some a) ∨ (q ≠ p ∧ q ≠ .hand ∧ m.held q = some a) := by
  have inHand : m.held .hand = some ref := inHand
  rw [held] at there
  split at there
  · rename_i at_p
    exact Or.inl ⟨at_p, inHand.trans there⟩
  · rename_i elsewhere
    split at there
    · cases there
    · rename_i not_hand
      exact Or.inr ⟨elsewhere, not_hand, there⟩

namespace Move
variable {m m' : Moment} {p : Place}

theorem attaches {i : Nat} {h : HandleId} {target : ObjectRef}
    (move : Move (.bind i h target) m m') :
    ∃ p ref b c c' ran, ref.id = h ∧ Attaches i target p ref b c c' ran m m' := by
  cases move with
  | @attach _ _ c c' p ref _ ran a here held loose unbound calm received =>
    exact ⟨p, ref, ⟨m.session.cells.size, a, c.heap.runtime, c.heap.pins⟩, c, c', ran, rfl, here,
      held,
      unbound, calm, received, rfl, rfl, rfl, held_arrive held loose, Moment.put_same _ _ _⟩

theorem arrive_cases (move : Move (.arrive p) m m') :
    (m'.session.cells = m.session.cells ∧ m'.session.collectors = m.session.collectors ∧
      m'.session.runs = m.session.runs ∧ m'.flight = m.flight) ∧
    ((m.held p = none ∧ m'.session.handles = m.session.handles + 1 ∧ ∀ q, m'.held q =
        if q = p then some { id := m.session.freshHandle.2 } else m.held q) ∨
      ∃ ref, m.hand = some ref ∧ m'.session.handles = m.session.handles ∧
        (∀ b, m.held p = some b → m.session.isBound b = false) ∧
        ∀ q, m'.held q = if q = p then some ref else if q = .hand then none else m.held q) := by
  obtain ⟨s, hand, running, flight⟩ := m
  have vacant : Moment.held ⟨s, hand, running, flight⟩ (.ref s.refs.size) = none := by
    change s.ref? s.refs.size = none
    simp [Session.ref?]
  cases move with
  | newRef _ =>
    refine ⟨⟨rfl, rfl, rfl, rfl⟩, Or.inl ⟨vacant, rfl, ?_⟩⟩
    exact s.freshHandle.1.held_addRef (some { id := s.freshHandle.2 }) hand running flight
  | take _ free =>
    refine ⟨⟨rfl, rfl, rfl, rfl⟩, Or.inl ⟨free, rfl, ?_⟩⟩
    intro q
    cases q <;> rfl
  | @enlist _ ref here =>
    refine ⟨⟨rfl, rfl, rfl, rfl⟩, Or.inr ⟨ref, here, rfl, ?_, ?_⟩⟩
    · intro b there
      have there : Moment.held ⟨s, hand, running, flight⟩ (.ref s.refs.size) = some b := there
      rw [vacant] at there
      cases there
    · intro q
      rw [s.held_addRef]
      cases q <;> rfl
  | @place _ x map key ref here present free =>
    refine ⟨⟨rfl, rfl, rfl, rfl⟩, Or.inr ⟨ref, here, rfl, ?_, ?_⟩⟩
    · intro b there
      have there : s.entry? x key = some b := there
      unfold Session.entry? at there
      rw [present] at there
      exact free b there
    · intro q
      rw [s.held_insert present]
      cases q <;> rfl

theorem rearranges (move : Move (.arrive p) m m') : Rearranges m m' := by
  obtain ⟨⟨cells, collectors, runs, flight⟩, fresh | settled⟩ := move.arrive_cases
  · obtain ⟨vacant, _, held⟩ := fresh
    refine ⟨?_, ?_, cells, collectors, runs, flight⟩
    · intro q a there
      rw [held] at there
      split at there
      · cases there
        exact Or.inl ⟨rfl, rfl⟩
      · exact Or.inr ⟨q, there⟩
    · intro q a before _
      refine ⟨q, ?_⟩
      rw [held, if_neg]
      · exact before
      · intro at_p
        rw [at_p, vacant] at before
        cases before
  · obtain ⟨ref, here, _, unbound, held⟩ := settled
    have in_hand : m.held .hand = some ref := here
    refine ⟨?_, ?_, cells, collectors, runs, flight⟩
    · intro q a there
      rcases Moment.stood_of_settle here held there with ⟨_, was⟩ | ⟨_, _, was⟩
      · exact Or.inr ⟨.hand, was⟩
      · exact Or.inr ⟨q, was⟩
    · intro q a before bound
      by_cases from_hand : q = .hand
      · refine ⟨p, ?_⟩
        rw [from_hand, in_hand] at before
        rw [held, if_pos rfl]
        exact before
      · refine ⟨q, ?_⟩
        rw [held, if_neg, if_neg from_hand]
        · exact before
        · intro at_p
          rw [unbound a (at_p ▸ before)] at bound
          cases bound

theorem apart_of_arrive (move : Move (.arrive p) m m') {R : WeakReference → WeakReference → Prop}
    (apart : ∀ q r a b, m.held q = some a → m.held r = some b → R a b → q = r)
    (new : ∀ q a, m.held q = some a →
      ¬ R { id := m.session.freshHandle.2 } a ∧ ¬ R a { id := m.session.freshHandle.2 })
    {q r : Place} {a b : WeakReference} (here : m'.held q = some a) (there : m'.held r = some b)
    (same : R a b) : q = r := by
  obtain ⟨_, ⟨_, _, held⟩ | ⟨ref, inHand, _, _, held⟩⟩ := move.arrive_cases
  · exact Moment.apart_of_put held apart (fun q a _ => new q a) here there same
  · have came := Moment.stood_of_settle inHand held here
    have came' := Moment.stood_of_settle inHand held there
    rcases came with ⟨at_p, was⟩ | ⟨_, not_hand, was⟩
    · rcases came' with ⟨at_p', _⟩ | ⟨_, not_hand, was'⟩
      · exact at_p.trans at_p'.symm
      · exact absurd (apart .hand r a b was was' same).symm not_hand
    · rcases came' with ⟨_, was'⟩ | ⟨_, _, was'⟩
      · exact absurd (apart q .hand a b was was' same) not_hand
      · exact apart q r a b was was' same

theorem issued_of_arrive (move : Move (.arrive p) m m')
    (issued : ∀ q a, m.held q = some a → a.id.raw ≤ m.session.handles) {q : Place}
    {a : WeakReference} (there : m'.held q = some a) : a.id.raw ≤ m'.session.handles := by
  obtain ⟨_, ⟨_, handles, held⟩ | ⟨ref, inHand, handles, _, held⟩⟩ := move.arrive_cases
  · rw [handles]
    rw [held] at there
    split at there
    · cases there
      exact Nat.le_refl _
    · exact Nat.le_succ_of_le (issued q a there)
  · rw [handles]
    rcases Moment.stood_of_settle inHand held there with ⟨_, was⟩ | ⟨_, _, was⟩
    · exact issued .hand a was
    · exact issued q a was

theorem held_of_arrive (move : Move (.arrive p) m m') {q : Place} {a : WeakReference}
    (elsewhere : q ≠ p) (here : m'.held q = some a) : m.held q = some a := by
  obtain ⟨_, ⟨_, _, held⟩ | ⟨ref, _, _, _, held⟩⟩ := move.arrive_cases
  · rw [held, if_neg elsewhere] at here
    exact here
  · rw [held, if_neg elsewhere] at here
    split at here
    · cases here
    · exact here

end Move

end WeakRefs
