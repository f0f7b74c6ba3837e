import WeakRefs.Proofs.HeapOfBinding
import WeakRefs.Proofs.WeakMap

/-!
# Entries that outlive their heap

An entry is a `StaleEntry` if it is as it was when its heap went, or if it was reported by then. No
pruning ends a binding that is in force against a heap that is there.
-/

namespace WeakRefs

theorem Move.isBound_touched {p : Place} {m m' : Moment} (move : Move (.touch p) m m')
    {r : WeakReference} (here : m.held p = some r) : m'.session.isBound r = false := by
  have mine {ref : WeakReference} (held : m.held p = some ref) : ref = r :=
    Option.some.inj (held.symm.trans here)
  cases move with
  | disarm _ at_i held =>
    rw [mine held]
    exact Session.isBound_disarm _ _ r
  | discard _ held =>
    rw [mine held]
    exact Session.isBound_discard _ r
  | @clear _ i c _ ref b target at_i held binding bound dead =>
    rw [← mine held, Session.isBound_of_binding _ binding]
    change (Session.cell (Session.clearDead _ _ _ _) _).isBound = false
    rw [Session.cell_clearDead, if_pos rfl]
    exact Cell.isBound_clear _
  | empty _ held unbound =>
    rw [← mine held]
    exact unbound
  | vacate _ held unbound =>
    rw [← mine held]
    exact unbound

/-- An entry that mirrors something has both finalizers kept, or its value is gone. -/
theorem Mirrors.of_entry {i x : Nat} {key : String} {m : Moment} {a : Option ObjectRef}
    (mirrors : Mirrors i x key m a) {r : WeakReference} (there : m.session.entry? x key = some r) :
    (∃ b v, BothKept i x key r b v m) ∨ ValueGone x key r m := by
  cases mirrors with
  | vacant none_there =>
    rw [none_there] at there
    cases there
  | bothKept here bothKept =>
    rw [there] at here
    cases here
    exact Or.inl ⟨_, _, bothKept⟩
  | valueGone here valueGone =>
    rw [there] at here
    cases here
    exact Or.inr valueGone

/-- What stands under a key is one of those who stood there at first, or its value is gone. -/
def StaleEntry (first : WeakReference → Prop) (x : Nat) (key : String) (m : Moment) : Prop :=
  ∀ r, m.session.entry? x key = some r → first r ∨ ValueGone x key r m

/-- An entry bound against heap `k` ends, or both of its finalizers are kept on its value. -/
def EndsOrBothKept (k x : Nat) (key : String) (m : Moment) : Prop :=
  ∀ c r b, m.session.collector? k = some c → m.session.entry? x key = some r →
    r.binding = some b → b.runtime = c.heap.runtime →
      BindingEnds r m ∨ ∃ v, BothKept k x key r b v m

section Moves
variable {k x : Nat} {key : String} {m m' : Moment} {t : Tag} {first : WeakReference → Prop}

theorem StaleEntry.move (stale : StaleEntry first x key m) (ownership : Ownership m)
    (move : Move t m m') (other : t ≠ .arrive (.entry x key)) : StaleEntry first x key m' := by
  intro r there
  have here := move.entry_before there other
  rcases stale r here with same | valueGone
  · exact Or.inl same
  · exact Or.inr (valueGone.move ownership move here there)

theorem StaleEntry.run {T : Tag → Prop} (stale : StaleEntry first x key m) (ownership : Ownership m)
    (moves : Moves T m m') (other : ∀ t, T t → t ≠ .arrive (.entry x key)) :
    StaleEntry first x key m' :=
  moves.keeps ownership (fun allowed ownership move stale =>
    stale.move ownership move (other _ allowed)) stale

theorem EndsOrBothKept.move (endsOrKept : EndsOrBothKept k x key m) (boundKept : BoundKept k m)
    (move : Move t m m') (other : t ≠ .arrive (.entry x key))
    (old : ∀ r, m.session.entry? x key = some r → ¬ t.defines (.report x key r.id)) :
    EndsOrBothKept k x key m' := by
  intro c' r b at_k there binding ofHeap
  have here := move.entry_before there other
  have held : m.held (.entry x key) = some r := here
  obtain ⟨map, present, _⟩ := (m.session.entry?_eq_some_iff).mp here
  have inside := m.session.lt_size_of_map? present
  rcases move.evolves.descends at_k with ⟨c, before, becomes⟩ | ⟨_, _, config, new⟩
  · rcases endsOrKept c r b before here binding (ofHeap.trans becomes.runtime) with
      ends | ⟨v, bothKept⟩
    · exact Or.inl (ends.move boundKept.ownership move held)
    · by_cases touched : t = .touch (.entry x key)
      · subst touched
        exact Or.inl (Or.inl (move.isBound_touched held))
      · rcases bothKept.move boundKept.ownership move held (Or.inr rfl) touched
          (old r here) inside with
          (⟨_, gone⟩ | ⟨_, gone⟩) | bothKept | ⟨valueGone, _⟩
        · rw [at_k] at gone
          cases gone
        · obtain ⟨map', present', _⟩ := (m'.session.entry?_eq_some_iff).mp there
          rw [present'] at gone
          cases gone
        · exact Or.inr ⟨v, bothKept⟩
        · exact Or.inl valueGone.ended
  · have issued := boundKept.issued (.entry x key) r b held binding
    rw [ofHeap, new] at issued
    exact absurd issued (Nat.not_succ_le_self _)

theorem EndsOrBothKept.run {T : Tag → Prop} (endsOrKept : EndsOrBothKept k x key m)
    (boundKept : BoundKept k m)
    (moves : Moves T m m') (calm : ∀ t, T t → t ≠ .script k ∧ t ≠ .arrive (.entry x key) ∧
      ∀ r, m.session.entry? x key = some r → ¬ t.defines (.report x key r.id)) :
    EndsOrBothKept k x key m' := by
  have all : BoundKept k m' ∧ EndsOrBothKept k x key m' ∧
      ∀ r, m'.session.entry? x key = some r → m.session.entry? x key = some r := by
    refine moves.preserves (I := fun n => BoundKept k n ∧ EndsOrBothKept k x key n ∧
      ∀ r, n.session.entry? x key = some r → m.session.entry? x key = some r) ?_
      ⟨boundKept, endsOrKept, fun _ here => here⟩
    intro t n n' allowed move all
    obtain ⟨boundKept, endsOrKept, before⟩ := all
    obtain ⟨unscripted, other, old⟩ := calm t allowed
    exact ⟨boundKept.move move unscripted, endsOrKept.move boundKept move other
      fun r here => old r (before r here), fun r there => before r (move.entry_before there other)⟩
  exact all.2.1

end Moves

section Operations
variable {s : Session} {op : Op} {k x : Nat} {key : String} {first : WeakReference → Prop}

theorem Session.insert_of_arrive (allowed : s.Allows op (.arrive (.entry x key))) :
    ∃ j v, op = .mapInsert j x key v ∧ (s.mapInsert j x key v).2 = .ok () := by
  cases allowed with
  | arrive arrives =>
    cases op with
    | mapInsert j y k v =>
      unfold arrival? at arrives
      rw [perform_mapInsert] at arrives
      cases result : (s.mapInsert j y k v).2 with
      | error e =>
        rw [result] at arrives
        cases arrives
      | ok done =>
        rw [result] at arrives
        cases arrives
        exact ⟨j, v, rfl, result⟩
    | newRefTo j v =>
      unfold arrival? at arrives
      split at arrives
      · cases arrives
      · cases arrives
      · rename_i inserts _
        cases inserts
      · cases arrives
    | _ => cases arrives

theorem StaleEntry.perform (stale : StaleEntry first x key ⟨s, none, [], []⟩)
    (ownership : Ownership ⟨s, none, [], []⟩) (other : ∀ j v, op ≠ .mapInsert j x key v) :
    StaleEntry first x key ⟨(s.perform op).1, none, [], []⟩ := by
  refine stale.run ownership (Session.perform_moves_of_ownership ownership op) fun t allowed same =>
    ?_
  rw [same] at allowed
  obtain ⟨j, v, inserts, _⟩ := Session.insert_of_arrive allowed
  exact other j v inserts

theorem StaleEntry.after {ops : List Op} (stale : StaleEntry first x key ⟨s, none, [], []⟩)
    (ownership : Ownership ⟨s, none, [], []⟩)
    (other : ∀ op ∈ ops, ∀ j v, op ≠ .mapInsert j x key v) :
    StaleEntry first x key ⟨s.after ops, none, [], []⟩ := by
  induction ops generalizing s with
  | nil => exact stale
  | cons op rest ih =>
    exact ih (stale.perform ownership (other op List.mem_cons_self))
      (Session.ownership_perform ownership op)
      fun op later => other op (List.mem_cons_of_mem _ later)

/-- An operation on a map that inserts nothing defines nothing and brings nothing. -/
theorem Session.map_moves (works : op.map? = some x)
    (inserts : ∀ j key v, op ≠ .mapInsert j x key v) :
    Moves (fun t => t = .free ∨ (∃ p, t = .touch p) ∨ t = .thin x) ⟨s, none, [], []⟩
      ⟨(s.perform op).1, none, [], []⟩ := by
  cases op with
  | mapInsert j y key v =>
    cases works
    exact absurd rfl (inserts j key v)
  | mapGet j y key =>
    cases works
    exact Strides.moves (mapGet_strides (Or.inl rfl) (fun r => Or.inr (Or.inl ⟨_, rfl⟩))
      (Or.inr (Or.inl ⟨_, rfl⟩)))
  | mapRemove j y key =>
    cases works
    exact Strides.moves (mapRemove_strides (Or.inl rfl) (Or.inr (Or.inl ⟨_, rfl⟩))
      (Or.inr (Or.inr rfl)))
  | mapUpdate j y =>
    cases works
    exact Strides.moves (mapUpdate_strides (Or.inl rfl) (fun key => Or.inr (Or.inl ⟨_, rfl⟩))
      (Or.inr (Or.inr rfl)))
  | _ => cases works

/-- The heap of its value keeps both finalizers of a new entry. -/
theorem EndsOrBothKept.of_mapInsert (scriptFree : ScriptFree ⟨s, none, [], []⟩) {j : Nat}
    {v : ObjectRef} (done : (s.mapInsert j x key v).2 = .ok ()) :
    EndsOrBothKept k x key ⟨(s.mapInsert j x key v).1, none, [], []⟩ := by
  have performed : (s.perform (.mapInsert j x key v)).1 = (s.mapInsert j x key v).1 := by
    rw [Session.perform_mapInsert]
  have scriptFree' : ScriptFree ⟨(s.mapInsert j x key v).1, none, [], []⟩ := by
    rw [← performed]
    exact scriptFree.perform fun _ => rfl
  cases here : s.collector? j with
  | none =>
    rw [Session.mapInsert_of_missing (Or.inl here)] at done
    cases done
  | some c =>
    cases present : s.map? x with
    | none =>
      rw [Session.mapInsert_of_missing (Or.inr present)] at done
      cases done
    | some map =>
      have mirrors := Mirrors.after_mapInsert (scriptFree.boundKept j) scriptFree.issued here
        present done
      intro d r b at_k there binding ofHeap
      rcases mirrors.of_entry there with ⟨b', w, bothKept⟩ | valueGone
      · cases Option.some.inj (binding.symm.trans bothKept.binding)
        obtain ⟨e, at_j, _⟩ := bothKept.ends.keptBy
        have one := (scriptFree'.boundKept k).apart j k e d at_j at_k
          ((bothKept.ofHeap e at_j).symm.trans ofHeap)
        subst one
        exact Or.inr ⟨w, bothKept⟩
      · exact Or.inl valueGone.ended

theorem EndsOrBothKept.perform (endsOrKept : EndsOrBothKept k x key ⟨s, none, [], []⟩)
    (scriptFree : ScriptFree ⟨s, none, [], []⟩) (plain : ∀ k, op.scripts k = false) :
    EndsOrBothKept k x key ⟨(s.perform op).1, none, [], []⟩ := by
  have boundKept := scriptFree.boundKept k
  by_cases works : op.map? = some x
  · by_cases inserts : ∃ j key v, op = .mapInsert j x key v
    · obtain ⟨j, key', v, inserts⟩ := inserts
      subst inserts
      have performed : (s.perform (.mapInsert j x key' v)).1 = (s.mapInsert j x key' v).1 := by
        rw [Session.perform_mapInsert]
      rw [performed]
      by_cases other : key' ≠ key ∨ (s.mapInsert j x key' v).2 ≠ .ok ()
      · refine endsOrKept.run boundKept (Session.mapInsert_spares scriptFree.ownership other) ?_
        exact fun t spares => ⟨spares.2.2 k, spares.1.arrive, spares.1.defines⟩
      · obtain ⟨same, done⟩ := not_or.mp other
        have same := not_not.mp same
        subst same
        exact .of_mapInsert scriptFree (not_not.mp done)
    · have moves := Session.map_moves (s := s) works fun j key v same => inserts ⟨j, key, v, same⟩
      refine endsOrKept.run boundKept moves fun t quiet => ?_
      rcases quiet with same | ⟨p, same⟩ | same
      · exact same ▸ ⟨nofun, nofun, fun _ _ => id⟩
      · exact same ▸ ⟨nofun, nofun, fun _ _ => id⟩
      · exact same ▸ ⟨nofun, nofun, fun _ _ => id⟩
  · have moves := Session.perform_moves_of_ownership scriptFree.ownership op
    refine endsOrKept.run boundKept moves fun t allowed => ?_
    have spares : t.Spares x key s := spares_of_allows works allowed
    exact ⟨Session.unscripted_of_allows (plain k) allowed, spares.arrive, spares.defines⟩

theorem EndsOrBothKept.after {ops : List Op} (endsOrKept : EndsOrBothKept k x key ⟨s, none, [], []⟩)
    (scriptFree : ScriptFree ⟨s, none, [], []⟩) (plain : ∀ op ∈ ops, ∀ k, op.scripts k = false) :
    EndsOrBothKept k x key ⟨s.after ops, none, [], []⟩ := by
  induction ops generalizing s with
  | nil => exact endsOrKept
  | cons op rest ih =>
    have now := plain op List.mem_cons_self
    exact ih (endsOrKept.perform scriptFree now) (scriptFree.perform now)
      fun op later => plain op (List.mem_cons_of_mem _ later)

end Operations

end WeakRefs
