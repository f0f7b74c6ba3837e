import WeakRefs.Proofs.CollectorChanges
import WeakRefs.Proofs.Moves.Op

/-!
# Who has which handle and which cell

Every reference has its own handle and, while it has a binding, its own cell; a cell that is bound
has a holder; a finalizer that waits for a cell names the handle of the holder.
-/

namespace WeakRefs

/-- Who has what: handles, cells and finalizers that wait belong together. -/
structure Ownership (m : Moment) : Prop where
  heaps : m.session.HeapsSound
  ids : ∀ p q a b, m.held p = some a → m.held q = some b → a.id = b.id → p = q
  issued : ∀ p a, m.held p = some a → a.id.raw ≤ m.session.handles
  own : ∀ p q a b c, m.held p = some a → m.held q = some b → a.cell? = some c →
    b.cell? = some c → p = q
  inside : ∀ p a c, m.held p = some a → a.cell? = some c → c < m.session.cells.size
  waits : ∀ c h, m.Awaits (.endBinding c h) → c < m.session.cells.size ∧
    ∀ p a, m.held p = some a → a.cell? = some c → a.id = h
  ran : ∀ c h, .endBinding c h ∈ m.session.runs → c < m.session.cells.size ∧
    (m.session.cell c).isBound = false
  holder : ∀ c t, m.session.cell c = .bound t → ∃ p a, m.held p = some a ∧ a.cell? = some c

namespace Ownership
variable {m m' : Moment}

theorem noNew (ownership : Ownership m) {new : Finalizer → Prop} (noNew : NoNewBindings new m m')
    (calm : ∀ c h, ¬ new (.endBinding c h)) (heaps : m'.session.HeapsSound) : Ownership m' where
  heaps := heaps
  ids p q a b here there same := by
    obtain ⟨a', before, id, _⟩ := noNew.held p a here
    obtain ⟨b', before', id', _⟩ := noNew.held q b there
    exact ownership.ids p q a' b' before before' (id.trans (same.trans id'.symm))
  issued p a here := by
    obtain ⟨a', before, id, _⟩ := noNew.held p a here
    have issued := ownership.issued p a' before
    rw [id] at issued
    exact Nat.le_trans issued noNew.handles
  own p q a b c here there mine yours := by
    obtain ⟨a', before, mine'⟩ := noNew.cell here mine
    obtain ⟨b', before', yours'⟩ := noNew.cell there yours
    exact ownership.own p q a' b' c before before' mine' yours'
  inside p a c here mine := by
    obtain ⟨a', before, mine'⟩ := noNew.cell here mine
    rw [noNew.size]
    exact ownership.inside p a' c before mine'
  waits c h waiting := by
    have waited : m.Awaits (.endBinding c h) := by
      rcases noNew.awaits _ waiting with waited | fresh
      · exact waited
      · exact absurd fresh (calm c h)
    obtain ⟨inside, names⟩ := ownership.waits c h waited
    refine ⟨noNew.size ▸ inside, ?_⟩
    intro p a here mine
    obtain ⟨a', before, id, binding⟩ := noNew.held p a here
    rw [← id]
    apply names p a' before
    rcases binding with empty | same
    · rw [WeakReference.cell?, empty] at mine
      cases mine
    · rwa [WeakReference.cell?, ← same]
  ran c h ran := by
    rw [noNew.size]
    rcases noNew.runs c h ran with ran | ⟨waiting, unbound⟩
    · obtain ⟨inside, unbound⟩ := ownership.ran c h ran
      refine ⟨inside, ?_⟩
      cases state : (m'.session.cell c).isBound with
      | false => rfl
      | true =>
        obtain ⟨t, bound⟩ := (Cell.isBound_iff _).mp state
        rw [noNew.bound c t bound] at unbound
        cases unbound
    · exact ⟨(ownership.waits c h waiting).1, unbound⟩
  holder c t bound := by
    obtain ⟨p, a, here, mine⟩ := ownership.holder c t (noNew.bound c t bound)
    exact ⟨p, a, noNew.stays c t p a bound here mine, mine⟩

/-- The reference that comes has a handle that nobody has had, or it is the one in hand. -/
theorem arrive (ownership : Ownership m) {p : Place} (move : Move (.arrive p) m m') :
    Ownership m' := by
  have rearranges := move.rearranges
  have cell (c : Nat) := Session.cell_congr rearranges.cells c
  have size := congrArg Array.size rearranges.cells
  have not_issued {q : Place} {a : WeakReference} (here : m.held q = some a) :
      a.id ≠ m.session.freshHandle.2 := by
    intro same_id
    have bound := ownership.issued q a here
    rw [same_id] at bound
    exact absurd bound (Nat.not_succ_le_self _)
  have stood {q : Place} {a : WeakReference} {c : Nat} (here : m'.held q = some a)
      (mine : a.cell? = some c) : ∃ q, m.held q = some a := by
    rcases rearranges.came q a here with ⟨empty, _⟩ | before
    · rw [WeakReference.cell?, empty] at mine
      cases mine
    · exact before
  constructor
  · exact move.heapsSound ownership.heaps
  · intro q r a b here there same_id
    refine move.apart_of_arrive ownership.ids ?_ here there same_id
    intro q a before
    exact ⟨fun same => not_issued before same.symm, not_issued before⟩
  · exact fun q a here => move.issued_of_arrive ownership.issued here
  · intro q r a b c here there mine yours
    refine move.apart_of_arrive (R := fun a b => a.cell? = some c ∧ b.cell? = some c) ?_ ?_ here
      there
      ⟨mine, yours⟩
    · exact fun q r a b here there both => ownership.own q r a b c here there both.1 both.2
    · intro q a _
      refine ⟨fun both => ?_, fun both => ?_⟩
      · cases both.1
      · cases both.2
  · intro q a c here mine
    obtain ⟨q, before⟩ := stood here mine
    rw [size]
    exact ownership.inside q a c before mine
  · intro c h waiting
    have waited : m.Awaits (.endBinding c h) := by
      rcases waiting with kept | flying
      · exact Or.inl ((Session.keeps_congr rearranges.collectors _).mp kept)
      · exact Or.inr (rearranges.flight ▸ flying)
    obtain ⟨inside, names⟩ := ownership.waits c h waited
    refine ⟨size ▸ inside, ?_⟩
    intro q a here mine
    obtain ⟨q, before⟩ := stood here mine
    exact names q a before mine
  · intro c h ran
    rw [size, cell]
    exact ownership.ran c h (rearranges.runs ▸ ran)
  · intro c t bound
    rw [cell] at bound
    obtain ⟨q, a, here, mine⟩ := ownership.holder c t bound
    have in_force : m.session.isBound a = true := by
      refine (Session.isBound_iff _ _).mpr ⟨c, mine, ?_⟩
      rw [bound]
      rfl
    obtain ⟨r, there⟩ := rearranges.stays q a here in_force
    exact ⟨r, a, there, mine⟩

/-- A binding arrives with a cell of its own. -/
theorem attach (ownership : Ownership m) {i : Nat} {h : HandleId} {target : ObjectRef}
    (move : Move (.bind i h target) m m') : Ownership m' := by
  obtain ⟨p, ref, b, c, c', ran, _, attaches⟩ := move.attaches
  have fresh := attaches.fresh
  have new_cell : ({ ref with binding := some b } : WeakReference).cell? = some b.cell := rfl
  have old_cell {q : Place} {a : WeakReference} {e : Nat} (there : m.held q = some a)
      (mine : a.cell? = some e) : e ≠ b.cell :=
    Nat.ne_of_lt (fresh ▸ ownership.inside q a e there mine)
  constructor
  · exact move.heapsSound ownership.heaps
  · intro q r a e there there' same_id
    refine Moment.apart_of_put attaches.held ownership.ids ?_ there there' same_id
    intro q a elsewhere before
    exact ⟨fun same => elsewhere (ownership.ids p q ref a attaches.was before same).symm,
      fun same => elsewhere (ownership.ids q p a ref before attaches.was same)⟩
  · intro q a there
    rw [attaches.same.handles]
    rcases attaches.held_cases there with ⟨_, new⟩ | ⟨_, before⟩
    · rw [new]
      exact ownership.issued p ref attaches.was
    · exact ownership.issued q a before
  · intro q r a e n there there' mine yours
    refine Moment.apart_of_put (R := fun a e => a.cell? = some n ∧ e.cell? = some n) attaches.held
      (fun q r a e there there' both => ownership.own q r a e n there there' both.1 both.2) ?_ there
      there' ⟨mine, yours⟩
    intro q a _ before
    refine ⟨fun both => ?_, fun both => ?_⟩
    · rw [new_cell] at both
      exact old_cell before both.2 (Option.some.inj both.1).symm
    · rw [new_cell] at both
      exact old_cell before both.1 (Option.some.inj both.2).symm
  · intro q a n there mine
    rw [attaches.size, ← fresh]
    rcases attaches.held_cases there with ⟨_, new⟩ | ⟨_, before⟩
    · rw [new, new_cell] at mine
      cases mine
      exact Nat.lt_succ_self _
    · rw [fresh]
      exact Nat.lt_succ_of_lt (ownership.inside q a n before mine)
  · intro n h waiting
    rw [attaches.size]
    rcases attaches.awaits_cases waiting with its | waited
    · cases its
      refine ⟨fresh ▸ Nat.lt_succ_self _, ?_⟩
      intro q a there mine
      rcases attaches.held_cases there with ⟨_, new⟩ | ⟨_, before⟩
      · rw [new]
      · exact absurd rfl (old_cell before mine)
    · obtain ⟨inside, names⟩ := ownership.waits n h waited
      refine ⟨Nat.lt_succ_of_lt inside, ?_⟩
      intro q a there mine
      rcases attaches.held_cases there with ⟨_, new⟩ | ⟨_, before⟩
      · rw [new, new_cell] at mine
        cases mine
        exact absurd fresh (Nat.ne_of_lt inside)
      · exact names q a before mine
  · intro n h done
    rw [attaches.size]
    rcases attaches.runs_cases done with before | ⟨at_once, its⟩
    · obtain ⟨inside, unbound⟩ := ownership.ran n h before
      rw [attaches.cell_of_lt inside]
      exact ⟨Nat.lt_succ_of_lt inside, unbound⟩
    · cases its
      rw [attaches.cell, if_pos rfl, at_once]
      exact ⟨fresh ▸ Nat.lt_succ_self _, rfl⟩
  · intro n t bound
    rw [attaches.cell] at bound
    split at bound
    · rename_i new
      subst new
      refine ⟨p, { ref with binding := some b }, ?_, new_cell⟩
      rw [attaches.held, if_pos rfl]
    · obtain ⟨q, a, there, mine⟩ := ownership.holder n t bound
      refine ⟨q, a, ?_, mine⟩
      rw [attaches.held, if_neg]
      · exact there
      · intro at_p
        rw [at_p, attaches.was] at there
        cases there
        have free := (Session.isBound_eq_false_iff _ _).mp attaches.unbound n mine
        rw [bound] at free
        cases free

theorem move (ownership : Ownership m) {t : Tag} (move : Move t m m') : Ownership m' := by
  cases quiet : t.brings with
  | false =>
    exact ownership.noNew (move.noNew ownership.heaps quiet) move.calm
      (move.heapsSound ownership.heaps)
  | true =>
    cases t with
    | arrive p => exact ownership.arrive move
    | bind i h x => exact ownership.attach move
    | _ => cases quiet

end Ownership

/-- What every allowed move preserves, given `Ownership`, every run of them preserves. -/
theorem Moves.keeps {T : Tag → Prop} {m m' : Moment} {I : Moment → Prop} (run : Moves T m m')
    (ownership : Ownership m) (step : ∀ {t a b}, T t → Ownership a → Move t a b → I a → I b)
    (start : I m) : I m' := by
  have both : Ownership m' ∧ I m' := by
    refine run.preserves (I := fun n => Ownership n ∧ I n) ?_ ⟨ownership, start⟩
    exact fun allowed move both => ⟨both.1.move move, step allowed both.1 move both.2⟩
  exact both.2

theorem ownership_empty : Ownership ⟨{}, none, [], []⟩ := by
  have nobody (p : Place) : Moment.held ⟨{}, none, [], []⟩ p = none := by
    cases p <;> simp [Moment.held, Session.ref?, Session.entry?, Session.map?]
  have nothing (f : Finalizer) : ¬ Moment.Awaits ⟨{}, none, [], []⟩ f := by
    intro waiting
    rcases waiting with ⟨i, c, here, _⟩ | flying
    · simp [Session.collector?] at here
    · cases flying
  have no_cell (c : Nat) : Session.cell {} c = .superseded :=
    Session.cell_of_size_le _ (Nat.zero_le c)
  constructor
  · intro i c here
    simp [Session.collector?] at here
  · intro p q a b here
    rw [nobody] at here
    cases here
  · intro p a here
    rw [nobody] at here
    cases here
  · intro p q a b c here
    rw [nobody] at here
    cases here
  · intro p a c here
    rw [nobody] at here
    cases here
  · exact fun c h waiting => absurd waiting (nothing _)
  · intro c h ran
    simp at ran
  · intro c t bound
    rw [no_cell] at bound
    cases bound

namespace Session

theorem lt_size_cells_of_ownership {s : Session} (ownership : Ownership ⟨s, none, [], []⟩) (r : Nat)
    (ref : WeakReference) (b : Binding) (here : s.ref? r = some ref)
    (binding : ref.binding = some b) : b.cell < s.cells.size :=
  ownership.inside (.ref r) ref b.cell here (WeakReference.cell?_of_binding binding)

/-- The moves of an operation. -/
theorem perform_moves_of_ownership {s : Session} (ownership : Ownership ⟨s, none, [], []⟩)
    (op : Op) :
    Moves (s.Allows op) ⟨s, none, [], []⟩ ⟨(s.perform op).1, none, [], []⟩ :=
  perform_moves op (lt_size_cells_of_ownership ownership)

theorem perform_strides_of_ownership {s : Session} (ownership : Ownership ⟨s, none, [], []⟩)
    {op : Op} (plain : op.recordsRuntime = false) :
    Strides (s.Allows op) ⟨s, none, [], []⟩ ⟨(s.perform op).1, none, [], []⟩ :=
  perform_strides op plain (lt_size_cells_of_ownership ownership)

theorem ownership_perform {s : Session} (ownership : Ownership ⟨s, none, [], []⟩) (op : Op) :
    Ownership ⟨(s.perform op).1, none, [], []⟩ :=
  (perform_moves_of_ownership ownership op).preserves (fun _ move ownership => ownership.move move)
    ownership

theorem ownership_run {s : Session} (ownership : Ownership ⟨s, none, [], []⟩) (ops : List Op) :
    Ownership ⟨s.after ops, none, [], []⟩ := by
  induction ops generalizing s with
  | nil => exact ownership
  | cons op rest ih => exact ih (ownership_perform ownership op)

/-- What every move keeps that an operation of the run allows, the run keeps. -/
theorem after_keeps {s : Session} (ownership : Ownership ⟨s, none, [], []⟩) {ops : List Op}
    {I : Moment → Prop}
    (step : ∀ op ∈ ops, ∀ {u : Session} {t : Tag} {m m' : Moment}, u.Allows op t → Ownership m →
      Move t m m' → I m → I m')
    (start : I ⟨s, none, [], []⟩) : I ⟨s.after ops, none, [], []⟩ := by
  induction ops generalizing s with
  | nil => exact start
  | cons op rest ih =>
    have first := (perform_moves_of_ownership ownership op).keeps ownership
      (step op List.mem_cons_self) start
    exact ih (ownership_perform ownership op)
      (fun one later => step one (List.mem_cons_of_mem _ later)) first

/-- `Ownership` holds of every session that a run reaches. -/
theorem ownership_after (ops : List Op) : Ownership ⟨Session.after {} ops, none, [], []⟩ :=
  ownership_run ownership_empty ops

end Session

end WeakRefs
