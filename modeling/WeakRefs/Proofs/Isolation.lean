import WeakRefs.Proofs.BindingOrigins

/-!
# The finalizer of an old binding

A finalizer that comes late goes by its cell. The cell of a binding is never handed out again, and
once nobody is bound by it, to run the finalizer changes nothing but the record of the runs.
-/

namespace WeakRefs

namespace Moment

/-- Moves lead from one moment to another. -/
def Later (m m' : Moment) : Prop := Moves (fun _ => True) m m'

def start : Moment := ⟨{}, none, [], []⟩

/-- A reference with the handle is bound by this very binding. -/
def InForce (m : Moment) (h : HandleId) (b : Binding) : Prop :=
  ∃ p a, m.held p = some a ∧ a.id = h ∧ a.binding = some b ∧ m.session.isBound a = true

def Settled (m : Moment) : Prop := ∀ c, m.session.cell c ≠ .pending

/-- The cell was handed out, and whoever has it has it in this binding of this handle. -/
structure Owned (m : Moment) (h : HandleId) (b : Binding) : Prop where
  made : b.cell < m.session.cells.size
  only : ∀ p a, m.held p = some a → a.cell? = some b.cell → a.id = h ∧ a.binding = some b

end Moment

namespace Session
variable (s : Session) (roots c : Nat) (handle : HandleId)

theorem setCell_self : s.setCell c (s.cell c) = s := by
  have same : s.cells.setIfInBounds c (s.cell c) = s.cells := by
    apply Array.ext_getElem?
    intro d
    rw [Array.getElem?_setIfInBounds]
    split
    · rename_i this
      subst this
      split
      · rename_i inside
        simp [cell, inside]
      · rename_i outside
        simp [outside]
    · rfl
  unfold setCell
  rw [same]

theorem endBinding_of_over (unbound : (s.cell c).isBound = false) (made : s.cell c ≠ .pending) :
    s.endBinding roots c handle = s := by
  have ignored : (s.cell c).fire = (s.cell c, .ignored) := by
    cases state : s.cell c with
    | pending => exact absurd state made
    | bound t =>
      rw [state] at unbound
      cases unbound
    | cleared => rfl
    | superseded => rfl
  unfold endBinding
  rw [ignored]
  exact s.setCell_self c

end Session

namespace Move
variable {t : Tag} {m m' : Moment}

theorem cell_cases (move : Move t m m') (d : Nat) :
    m'.session.cell d = m.session.cell d ∨ m'.session.cell d ≠ .pending := by
  obtain ⟨s, hand, running, flight⟩ := m
  cases move with
  | tornDown _ x =>
    left
    unfold Session.recordTornDown
    dsimp only
    split <;> rfl
  | reclaim _ here idle calm reclamation =>
    left
    simp only [Session.emitAll_eq]
    rfl
  | @fire _ i c cell handle rest here idle flies =>
    rw [Session.cell_endBinding]
    split
    · right
      cases (s.logRun (.endBinding cell handle)).cell cell <;> exact nofun
    · exact Or.inl rfl
  | disarm _ here held =>
    rw [s.cell_disarm]
    split
    · exact Or.inr nofun
    · exact Or.inl rfl
  | discard _ held =>
    rw [s.cell_discard]
    split
    · exact Or.inr nofun
    · exact Or.inl rfl
  | clear _ here held binding bound dead =>
    rw [Session.cell_emit, s.cell_clearDead]
    split
    · right
      rw [bound]
      exact nofun
    · exact Or.inl rfl
  | @prune _ x map here =>
    change (s.discardAll map.prune.2).cell d = s.cell d ∨ (s.discardAll map.prune.2).cell d ≠ _
    rw [s.cell_discardAll]
    split
    · exact Or.inr nofun
    · exact Or.inl rfl
  | @dropMap _ x map here =>
    change (s.discardAll map.references).cell d = s.cell d ∨
      (s.discardAll map.references).cell d ≠ _
    rw [s.cell_discardAll]
    split
    · exact Or.inr nofun
    · exact Or.inl rfl
  | @attach _ i c c' p ref target ran a here held loose unbound calm received =>
    rw [cell_put_arrive]
    split
    · cases ran <;> exact Or.inr nofun
    · exact Or.inl rfl
  | _ => exact Or.inl rfl

theorem settled (move : Move t m m') (settled : m.Settled) : m'.Settled := by
  intro d
  rcases move.cell_cases d with same | past
  · rw [same]
    exact settled d
  · exact past

theorem cells_le (ownership : Ownership m) (move : Move t m m') :
    m.session.cells.size ≤ m'.session.cells.size := by
  cases quiet : t.brings with
  | false => exact Nat.le_of_eq (move.noNew ownership.heaps quiet).size.symm
  | true =>
    cases t with
    | arrive p => exact Nat.le_of_eq (congrArg Array.size move.rearranges.cells).symm
    | bind heap handle target =>
      obtain ⟨p, ref, b, c, c', ran, _, attaches⟩ := move.attaches
      rw [attaches.size]
      exact Nat.le_succ _
    | _ => cases quiet

theorem owned (ownership : Ownership m) (move : Move t m m') {h : HandleId} {b : Binding}
    (owned : m.Owned h b) : m'.Owned h b := by
  constructor
  · exact Nat.lt_of_lt_of_le owned.made (move.cells_le ownership)
  · intro p a here mine
    obtain ⟨b', binding, same⟩ := WeakReference.cell?_eq_some_iff.mp mine
    rcases move.binding_cases ownership here binding with ⟨q, before⟩ | ⟨_, _, _, _, _, fresh, _⟩
    · exact owned.only q a before mine
    · exact absurd (same.symm.trans fresh) (Nat.ne_of_lt owned.made)

end Move

namespace Moment
variable {m m' : Moment}

theorem Later.ownership (later : Later m m') (ownership : Ownership m) : Ownership m' :=
  later.preserves (fun _ move ownership => ownership.move move) ownership

theorem Later.settled (later : Later m m') (settled : m.Settled) : m'.Settled :=
  later.preserves (fun _ move settled => move.settled settled) settled

theorem Later.owned (later : Later m m') (ownership : Ownership m) {h : HandleId} {b : Binding}
    (owned : m.Owned h b) : m'.Owned h b :=
  later.keeps ownership (fun _ ownership move owned => move.owned ownership owned) owned

/-- A cell by which nobody is bound binds nobody later. -/
theorem Later.unbound (later : Later m m') (ownership : Ownership m) {c : Nat}
    (made : c < m.session.cells.size) (past : (m.session.cell c).isBound = false) :
    (m'.session.cell c).isBound = false := by
  have both : c < m'.session.cells.size ∧ (m'.session.cell c).isBound = false := by
    refine later.keeps ownership (I := fun n => c < n.session.cells.size ∧
      (n.session.cell c).isBound = false) ?_ ⟨made, past⟩
    intro t n n' _ ownership move both
    refine ⟨Nat.lt_of_lt_of_le both.1 (move.cells_le ownership), Bool.eq_false_iff.mpr fun bound =>
      ?_⟩
    obtain ⟨y, bound⟩ := (Cell.isBound_iff _).mp bound
    have before := move.bound_of_old ownership both.1 bound
    have past := both.2
    rw [before] at past
    cases past
  exact both.2

theorem settled_start : start.Settled := by
  intro c pending
  have none_made : start.session.cell c = .superseded := Session.cell_of_size_le _ (Nat.zero_le c)
  rw [none_made] at pending
  cases pending

theorem owned_of_held (ownership : Ownership m) {p : Place} {ref : WeakReference} {b : Binding}
    (held : m.held p = some ref) (binding : ref.binding = some b) : m.Owned ref.id b := by
  have mine : ref.cell? = some b.cell := WeakReference.cell?_of_binding binding
  constructor
  · exact ownership.inside p ref b.cell held mine
  · intro q a here cell
    have same := ownership.own q p a ref b.cell here held cell mine
    rw [same, held] at here
    cases here
    exact ⟨rfl, binding⟩

theorem unbound_of_not_inForce (ownership : Ownership m) {h : HandleId} {b : Binding}
    (owned : m.Owned h b) (ended : ¬ m.InForce h b) : (m.session.cell b.cell).isBound = false := by
  rw [← Bool.not_eq_true]
  intro state
  obtain ⟨t, bound⟩ := (Cell.isBound_iff _).mp state
  obtain ⟨p, a, here, mine⟩ := ownership.holder b.cell t bound
  obtain ⟨named, binding⟩ := owned.only p a here mine
  exact ended ⟨p, a, here, named, binding, (m.session.isBound_iff a).mpr ⟨b.cell, mine, state⟩⟩

theorem not_inForce_of_rebound (ownership : Ownership m) {p : Place} {ref : WeakReference}
    {b : Binding}
    (held : m.held p = some ref) (other : ref.binding ≠ some b) : ¬ m.InForce ref.id b := by
  rintro ⟨q, a, here, named, binding, _⟩
  have same := ownership.ids q p a ref here held named
  rw [same, held] at here
  cases here
  exact other binding

end Moment

namespace Session

theorem later_after {s : Session} (ownership : Ownership ⟨s, none, [], []⟩) (ops : List Op) :
    Moment.Later ⟨s, none, [], []⟩ ⟨s.after ops, none, [], []⟩ :=
  after_keeps ownership (I := Moment.Later ⟨s, none, [], []⟩)
    (fun _ _ _ _ _ _ _ _ move before => before.tail ⟨_, trivial, move⟩) Moves.refl

end Session

/-- From a session on, a finalizer changes nothing, whenever it runs and whatever its roots. -/
def Finalizer.IsSpent (f : Finalizer) (s : Session) : Prop :=
  ∀ m, Moment.Later ⟨s, none, [], []⟩ m → ∀ focus roots, m.session.deliver focus roots f =
    m.session.logRun f

theorem Finalizer.isSpent_of_unbound {s : Session} {c : Nat}
    (ownership : Ownership ⟨s, none, [], []⟩)
    (settled : Moment.Settled ⟨s, none, [], []⟩) (made : c < s.cells.size)
    (past : (s.cell c).isBound = false) (h : HandleId) :
    (Finalizer.endBinding c h).IsSpent s := by
  intro m later focus roots
  exact (m.session.logRun _).endBinding_of_over roots c h (later.unbound ownership made past)
    (later.settled settled c)

namespace Session

theorem deliver_of_unbound_cell (ops more : List Op) {c : Nat}
    (made : c < (after {} ops).cells.size)
    (nobody : ∀ p a, (after {} ops).held p = some a → a.cell? = some c →
      (after {} ops).isBound a = false) (h : HandleId) (focus : Focus) (roots : Nat) :
    (after {} (ops ++ more)).deliver focus roots (.endBinding c h) =
      (after {} (ops ++ more)).logRun (.endBinding c h) := by
  have ownership := ownership_after ops
  have settled := (later_after ownership_empty ops).settled Moment.settled_start
  have past : ((after {} ops).cell c).isBound = false := by
    rw [← Bool.not_eq_true]
    intro state
    obtain ⟨t, bound⟩ := (Cell.isBound_iff _).mp state
    obtain ⟨p, a, here, mine⟩ := ownership.holder c t bound
    have unbound := nobody p a ((Moment.held_atRest _ p).symm.trans here) mine
    rw [(isBound_iff _ a).mpr ⟨c, mine, state⟩] at unbound
    cases unbound
  rw [after_append]
  have later := later_after ownership more
  exact Finalizer.isSpent_of_unbound ownership settled made past h _ later focus roots

theorem deliver_of_ended_binding (ops more : List Op) {p : Place} {ref : WeakReference}
    (held : (after {} ops).held p = some ref) {b : Binding} (binding : ref.binding = some b)
    (ended : ∀ q a, (after {} (ops ++ more)).held q = some a → a.binding = some b →
      (after {} (ops ++ more)).isBound a = false) (focus : Focus) (roots : Nat) :
    (after {} (ops ++ more)).deliver focus roots (.endBinding b.cell ref.id) =
      (after {} (ops ++ more)).logRun (.endBinding b.cell ref.id) := by
  have ownership := ownership_after ops
  have later := later_after ownership more
  rw [← after_append] at later
  have owned := later.owned ownership
    (Moment.owned_of_held ownership ((Moment.held_atRest _ p).trans held) binding)
  have inert := deliver_of_unbound_cell (ops ++ more) [] owned.made (fun q a here mine =>
    ended q a here (owned.only q a ((Moment.held_atRest _ q).trans here) mine).2) ref.id focus roots
  rw [List.append_nil] at inert
  exact inert

end Session

/-- Once nobody is bound by a binding any more, its finalizer changes nothing but the record that it
ran. -/
theorem old_finalizer_is_inert {m₀ m : Moment} (course : Moment.Later .start m₀)
    (later : Moment.Later m₀ m) {p : Place} {ref : WeakReference} (held : m₀.held p = some ref)
    {b : Binding} (binding : ref.binding = some b) (ended : ¬ m.InForce ref.id b) (focus : Focus)
    (roots : Nat) :
    m.session.deliver focus roots (.endBinding b.cell ref.id) =
      m.session.logRun (.endBinding b.cell ref.id) := by
  have ownership := course.ownership ownership_empty
  have owned := later.owned ownership (Moment.owned_of_held ownership held binding)
  have unbound := Moment.unbound_of_not_inForce (later.ownership ownership) owned ended
  have settled := later.settled (course.settled Moment.settled_start)
  exact (m.session.logRun _).endBinding_of_over roots b.cell ref.id unbound (settled b.cell)

/-- A reference bound twice to one target: the first finalizer leaves the second binding alone. -/
theorem old_finalizer_of_rebind :
    ∃ s : Session, s = (Session.after {} [.newHeap {}, .alloc 0 .plain, .newRefTo 0 ⟨0, 0⟩]).after
        [.bind 0 0 ⟨0, 0⟩] ∧
      s.target? ⟨⟨1⟩, some ⟨1, .indirect, ⟨1⟩, 0⟩⟩ = some ⟨0, 0⟩ ∧
      s.deliver .idle 0 (.endBinding 0 ⟨1⟩) = s.logRun (.endBinding 0 ⟨1⟩) := by
  have first := Session.ownership_after [.newHeap {}, .alloc 0 .plain, .newRefTo 0 ⟨0, 0⟩]
  have before : (Session.after {} [.newHeap {}, .alloc 0 .plain, .newRefTo 0 ⟨0, 0⟩]).ref? 0 =
      some ⟨⟨1⟩, some ⟨0, .indirect, ⟨1⟩, 0⟩⟩ := by decide +kernel
  obtain ⟨s, run⟩ : ∃ s, s = (Session.after {}
    [.newHeap {}, .alloc 0 .plain, .newRefTo 0 ⟨0, 0⟩]).after [.bind 0 0 ⟨0, 0⟩] := ⟨_, rfl⟩
  have now : s.ref? 0 = some ⟨⟨1⟩, some ⟨1, .indirect, ⟨1⟩, 0⟩⟩ := by
    rw [run]
    decide +kernel
  have bound : s.target? ⟨⟨1⟩, some ⟨1, .indirect, ⟨1⟩, 0⟩⟩ = some ⟨0, 0⟩ := by
    rw [run]
    decide +kernel
  have later := Session.later_after first [.bind 0 0 ⟨0, 0⟩]
  have ownership := Session.ownership_run first [.bind 0 0 ⟨0, 0⟩]
  rw [← run] at later ownership
  have ended : ¬ Moment.InForce ⟨s, none, [], []⟩ ⟨1⟩ ⟨0, .indirect, ⟨1⟩, 0⟩ :=
    Moment.not_inForce_of_rebound (p := .ref 0) ownership now (by decide)
  exact ⟨s, run, bound, old_finalizer_is_inert (p := .ref 0)
    (Session.later_after ownership_empty _) later before rfl ended .idle 0⟩

end WeakRefs
