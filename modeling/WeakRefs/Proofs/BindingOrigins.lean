import WeakRefs.Proofs.Ownership

/-!
# Where bindings come from

Whoever is bound after an operation was bound before it in the same way, or is bound by it. An
operation that could make a reference and fails leaves none behind.
-/

namespace WeakRefs

namespace Move
variable {t : Tag} {m m' : Moment}

/-- A cell that was there is bound only if it was bound before. -/
theorem bound_of_old (ownership : Ownership m) (move : Move t m m') {d : Nat} {x : ObjectRef}
    (old : d < m.session.cells.size) (bound : m'.session.cell d = .bound x) :
    m.session.cell d = .bound x := by
  cases quiet : t.brings with
  | false => exact (move.noNew ownership.heaps quiet).bound d x bound
  | true =>
    cases t with
    | arrive p => exact (Session.cell_congr move.rearranges.cells d).symm.trans bound
    | bind heap handle target =>
      obtain ⟨p, ref, b, c, c', ran, _, attaches⟩ := move.attaches
      exact (attaches.cell_of_lt old).symm.trans bound
    | _ => cases quiet

/-- Whoever has a binding had it before, or it arrives in this move. -/
theorem binding_cases (ownership : Ownership m) (move : Move t m m') {p : Place} {a : WeakReference}
    {b : Binding} (here : m'.held p = some a) (binding : a.binding = some b) :
    (∃ q, m.held q = some a) ∨ ∃ i c x, t = .bind i a.id x ∧ m.session.collector? i = some c ∧
      b.cell = m.session.cells.size ∧ b.runtime = c.heap.runtime ∧ b.pins = c.heap.pins ∧
      ∀ y, m'.session.cell b.cell = .bound y → y = x := by
  cases quiet : t.brings with
  | false =>
    obtain ⟨a', before, id, empty | same⟩ := (move.noNew ownership.heaps quiet).held p a here
    · rw [empty] at binding
      cases binding
    · have unchanged : a' = a := by
        cases a
        cases a'
        cases id
        cases same
        rfl
      exact Or.inl ⟨p, unchanged ▸ before⟩
  | true =>
    cases t with
    | arrive q =>
      rcases move.rearranges.came p a here with ⟨empty, _⟩ | before
      · rw [empty] at binding
        cases binding
      · exact Or.inl before
    | bind heap handle target =>
      obtain ⟨q, ref, d, c, c', ran, rfl, attaches⟩ := move.attaches
      rcases attaches.held_cases here with ⟨_, its⟩ | ⟨_, before⟩
      · subst its
        cases binding
        refine Or.inr ⟨heap, c, target, rfl, attaches.here, attaches.fresh, attaches.runtime,
          attaches.pins, ?_⟩
        intro y bound
        rw [attaches.cell, if_pos rfl] at bound
        cases ran with
        | true => cases bound
        | false =>
          cases bound
          rfl
      · exact Or.inl ⟨p, before⟩
    | _ => cases quiet

theorem target_cases (ownership : Ownership m) (move : Move t m m') {p : Place} {a : WeakReference}
    {x : ObjectRef} (here : m'.held p = some a) (target : m'.session.target? a = some x) :
    (∃ q, m.held q = some a ∧ m.session.target? a = some x) ∨ ∃ i, t = .bind i a.id x := by
  obtain ⟨b, binding, bound⟩ := Session.binding_of_target? target
  have mine := WeakReference.cell?_of_binding binding
  rcases move.binding_cases ownership here binding with ⟨q, before⟩ | ⟨i, c, y, tag, _, _, _, _,
    only⟩
  · have old := move.bound_of_old ownership (ownership.inside q a b.cell before mine) bound
    exact Or.inl ⟨q, before, (Session.target?_eq_some_iff _ _).mpr ⟨b.cell, mine, old⟩⟩
  · rw [only x bound]
    exact Or.inr ⟨i, tag⟩

/-- Whoever stands in a place stood there before, unless it is the place where somebody came. -/
theorem held_of_stays (ownership : Ownership m) (move : Move t m m') {p : Place} {a : WeakReference}
    (here : m'.held p = some a) (stays : t ≠ .arrive p) : ∃ b, m.held p = some b ∧ b.id = a.id := by
  cases quiet : t.brings with
  | false =>
    obtain ⟨b, before, id, _⟩ := (move.noNew ownership.heaps quiet).held p a here
    exact ⟨b, before, id⟩
  | true =>
    cases t with
    | arrive q =>
      have elsewhere : p ≠ q := fun same => stays (same ▸ rfl)
      exact ⟨a, move.held_of_arrive elsewhere here, rfl⟩
    | bind heap handle target =>
      obtain ⟨q, ref, b, c, c', ran, _, attaches⟩ := move.attaches
      rcases attaches.held_cases here with ⟨at_q, its⟩ | ⟨_, before⟩
      · subst its
        exact ⟨ref, at_q ▸ attaches.was, rfl⟩
      · exact ⟨a, before, rfl⟩
    | _ => cases quiet

end Move

namespace Session

/-- The target to which an operation binds a handle. -/
def binds? (s : Session) (op : Op) (h : HandleId) : Option ObjectRef :=
  (s.boundBy? op).bind fun bound => if bound.1 = h then some bound.2 else none

variable {s : Session} {op : Op} {h : HandleId} {t : ObjectRef}

theorem target?_of_boundBy? (bound : s.boundBy? op = some (h, t)) :
    ∃ i, op.target? = some (i, t) := by
  unfold boundBy? at bound
  split at bound
  · obtain ⟨ref, _, same⟩ := Option.map_eq_some_iff.mp bound
    cases same
    exact ⟨_, rfl⟩
  · cases bound
    exact ⟨_, rfl⟩
  · cases bound
    exact ⟨_, rfl⟩
  · cases bound

theorem target?_of_allows {i : Nat} (allowed : s.Allows op (.bind i h t)) :
    op.target? = some (i, t) := by
  cases allowed with
  | bind _ target => exact target
  | fresh target => exact target

theorem boundBy?_of_binds? (binds : s.binds? op h = some t) : s.boundBy? op = some (h, t) := by
  obtain ⟨bound, found, chosen⟩ := Option.bind_eq_some_iff.mp binds
  split at chosen
  · rename_i named
    cases chosen
    rw [found, ← named]
  · cases chosen

theorem binds?_of_boundBy? (bound : s.boundBy? op = some (h, t)) : s.binds? op h = some t := by
  unfold binds?
  rw [bound]
  exact if_pos rfl

theorem arrival?_of_unbound {i : Nat} (target : op.target? = some (i, t))
    (unbound : s.binds? op s.freshHandle.2 = none) : s.arrival? op = none := by
  cases arrival : s.arrival? op with
  | none => rfl
  | some p =>
    have bound : ∃ x, s.boundBy? op = some (s.freshHandle.2, x) := by
      unfold arrival? at arrival
      unfold boundBy?
      split at arrival
      · cases target
      · rename_i answer
        exact ⟨_, by rw [answer]⟩
      · rename_i answer
        exact ⟨_, by rw [answer]⟩
      · cases arrival
    obtain ⟨x, bound⟩ := bound
    rw [binds?_of_boundBy? bound] at unbound
    cases unbound

theorem issued_of_held (ownership : Ownership ⟨s, none, [], []⟩) {p : Place} {a : WeakReference}
    (here : s.held p = some a) : a.id ≠ s.freshHandle.2 := by
  intro named
  have issued : a.id.raw ≤ s.handles :=
    ownership.issued p a ((Moment.held_atRest s p).trans here)
  rw [named] at issued
  exact absurd issued (Nat.not_succ_le_self _)

theorem nobody_of_unbound (ownership : Ownership ⟨s, none, [], []⟩) {i : Nat}
    (target : op.target? = some (i, t)) (unbound : s.binds? op s.freshHandle.2 = none) {p : Place}
    {a : WeakReference} (here : (s.perform op).1.held p = some a) : a.id ≠ s.freshHandle.2 := by
  have unplaced := arrival?_of_unbound target unbound
  have moves := perform_moves_of_ownership ownership op
  have in_hand : ∀ p a, Moment.held ⟨(s.perform op).1, none, [], []⟩ p = some a →
      a.id = s.freshHandle.2 → p = .hand := by
    refine moves.keeps ownership
      (I := fun m => ∀ p a, m.held p = some a → a.id = s.freshHandle.2 → p = .hand) ?_ ?_
    · intro tag m m' allowed ownership move in_hand p a here named
      by_cases stays : tag = .arrive p
      · rw [stays] at allowed
        cases allowed with
        | take => rfl
        | arrive arrives =>
          rw [unplaced] at arrives
          cases arrives
      · obtain ⟨b, before, same⟩ := move.held_of_stays ownership here stays
        exact in_hand p b before (same.trans named)
    · intro p a here named
      rw [Moment.held_atRest] at here
      exact absurd named (issued_of_held ownership here)
  intro named
  have in_hand := in_hand p a ((Moment.held_atRest _ p).trans here) named
  rw [in_hand] at here
  cases here

/-- Whoever is bound after an operation was bound before to the same target, or is bound by it. -/
theorem origin (ownership : Ownership ⟨s, none, [], []⟩) (op : Op) {p : Place} {a : WeakReference}
    (here : (s.perform op).1.held p = some a) (target : (s.perform op).1.target? a = some t) :
    (∃ q, s.held q = some a ∧ s.target? a = some t) ∨ s.binds? op a.id = some t := by
  have moves := perform_moves_of_ownership ownership op
  have bound_by : ∀ p a t, Moment.held ⟨(s.perform op).1, none, [], []⟩ p = some a →
      (s.perform op).1.target? a = some t → (∃ q, s.held q = some a ∧ s.target? a = some t) ∨
        ∃ i, s.Allows op (.bind i a.id t) := by
    refine moves.keeps ownership (I := fun m => ∀ p a t, m.held p = some a →
      m.session.target? a = some t → (∃ q, s.held q = some a ∧ s.target? a = some t) ∨
        ∃ i, s.Allows op (.bind i a.id t)) ?_ ?_
    · intro tag m m' allowed ownership move bound_by p a t here target
      rcases move.target_cases ownership here target with ⟨q, before, was⟩ | ⟨i, now⟩
      · exact bound_by q a t before was
      · exact Or.inr ⟨i, now ▸ allowed⟩
    · intro p a t here target
      rw [Moment.held_atRest] at here
      exact Or.inl ⟨p, here, target⟩
  rcases bound_by p a t ((Moment.held_atRest _ p).trans here) target with before | ⟨i, allowed⟩
  · exact Or.inl before
  · right
    have same_target := target?_of_allows allowed
    have fresh_or : a.id = s.freshHandle.2 ∨ s.binds? op a.id = some t := by
      generalize a.id = h at allowed
      cases allowed with
      | bind bound _ => exact Or.inr (binds?_of_boundBy? bound)
      | fresh _ => exact Or.inl rfl
    rcases fresh_or with fresh | bound
    · cases binds : s.binds? op a.id with
      | none =>
        rw [fresh] at binds
        exact absurd fresh (nobody_of_unbound ownership same_target binds here)
      | some x =>
        obtain ⟨j, other⟩ := target?_of_boundBy? (boundBy?_of_binds? binds)
        rw [same_target] at other
        cases other
        rfl
    · exact bound

end Session

end WeakRefs
