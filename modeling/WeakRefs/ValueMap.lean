import WeakRefs.Data.Table
import WeakRefs.Reference

/-!
# Maps with weakly held values

Each entry is a weak reference of its own. Finalizers on the values report key and handle of an
entry whose value is gone to a dead list, which `prune` drains. A report counts only against the
very reference that it names.
-/

namespace WeakRefs

structure WeakValueMap where
  entries : Table String WeakReference := ∅
  /-- Keys and handles of entries whose value was finalized. -/
  dead : List (String × HandleId) := []

namespace WeakValueMap

/-- Take out the entries that reports name, one report after the other; answers the references
taken. -/
def evict (entries : Table String WeakReference) :
    List (String × HandleId) → Table String WeakReference × List WeakReference
  | [] => (entries, [])
  | (key, handle) :: rest =>
    match entries.get? key with
    | some r =>
      if r.id = handle then
        let later := evict (entries.erase key) rest
        (later.1, r :: later.2)
      else evict entries rest
    | none => evict entries rest

/-- Drain the dead list; answers the references of the entries removed. -/
def prune (m : WeakValueMap) : WeakValueMap × List WeakReference :=
  let evicted := evict m.entries m.dead
  ({ entries := evicted.1 }, evicted.2)

def report (m : WeakValueMap) (key : String) (handle : HandleId) : WeakValueMap :=
  { m with dead := m.dead ++ [(key, handle)] }

def references (m : WeakValueMap) : List WeakReference := m.entries.values

def size (m : WeakValueMap) : Nat := m.entries.size

theorem get?_evict (reports : List (String × HandleId)) (entries : Table String WeakReference)
    (key : String) (r : WeakReference) :
    (evict entries reports).1.get? key = some r ↔
      entries.get? key = some r ∧ ¬ (key, r.id) ∈ reports := by
  induction reports generalizing entries with
  | nil => simp [evict]
  | cons first rest ih =>
    obtain ⟨k, handle⟩ := first
    unfold evict
    split
    · rename_i q present
      split
      · rename_i same
        simp only [ih, Table.get?_erase, List.mem_cons, Prod.mk.injEq, not_or, not_and]
        by_cases h : key = k
        · subst h
          simp only [↓reduceIte, reduceCtorEq, false_and, present, Option.some.injEq, forall_const,
            false_iff, not_and]
          rintro rfl hne
          exact absurd same hne
        · simp [h]
      · rename_i other
        simp only [ih, List.mem_cons, Prod.mk.injEq, not_or, not_and]
        constructor
        · rintro ⟨hr, hmem⟩
          refine ⟨hr, ?_, hmem⟩
          rintro rfl hid
          rw [present] at hr
          cases hr
          exact other hid
        · exact fun ⟨hr, _, hmem⟩ => ⟨hr, hmem⟩
    · rename_i absent
      simp only [ih, List.mem_cons, Prod.mk.injEq, not_or, not_and]
      constructor
      · rintro ⟨hr, hmem⟩
        refine ⟨hr, ?_, hmem⟩
        rintro rfl
        rw [absent] at hr
        cases hr
      · exact fun ⟨hr, _, hmem⟩ => ⟨hr, hmem⟩

theorem mem_evict (reports : List (String × HandleId)) (entries : Table String WeakReference)
    (r : WeakReference) : r ∈ (evict entries reports).2 ↔
      ∃ key, entries.get? key = some r ∧ (key, r.id) ∈ reports := by
  induction reports generalizing entries with
  | nil => simp [evict]
  | cons first rest ih =>
    obtain ⟨k, handle⟩ := first
    have idle (missed : ∀ q, entries.get? k = some q → q.id ≠ handle) :
        (∃ key, entries.get? key = some r ∧ (key, r.id) ∈ rest) ↔
          ∃ key, entries.get? key = some r ∧ (key, r.id) ∈ (k, handle) :: rest := by
      constructor
      · intro ⟨key, present, reported⟩
        exact ⟨key, present, List.mem_cons_of_mem _ reported⟩
      · intro ⟨key, present, reported⟩
        rcases List.mem_cons.mp reported with named | reported
        · cases named
          exact absurd rfl (missed r present)
        · exact ⟨key, present, reported⟩
    unfold evict
    split
    · rename_i q present
      split
      · rename_i same
        rw [List.mem_cons, ih]
        constructor
        · intro taken
          rcases taken with first | ⟨key, later, reported⟩
          · subst first
            refine ⟨k, present, ?_⟩
            rw [same]
            exact List.mem_cons_self
          · rw [Table.get?_erase] at later
            split at later
            · cases later
            · exact ⟨key, later, List.mem_cons_of_mem _ reported⟩
        · intro ⟨key, there, reported⟩
          by_cases named : key = k
          · subst named
            rw [present] at there
            cases there
            exact Or.inl rfl
          · refine Or.inr ⟨key, ?_, ?_⟩
            · rw [Table.get?_erase, if_neg named]
              exact there
            · rcases List.mem_cons.mp reported with first | reported
              · cases first
                exact absurd rfl named
              · exact reported
      · rename_i other
        rw [ih]
        apply idle
        intro p there
        rw [present] at there
        cases there
        exact other
    · rename_i absent
      rw [ih]
      apply idle
      intro p there
      rw [absent] at there
      cases there

@[simp] theorem dead_prune (m : WeakValueMap) : m.prune.1.dead = [] := rfl

theorem get?_prune (m : WeakValueMap) (key : String) (r : WeakReference) :
    m.prune.1.entries.get? key = some r ↔
      m.entries.get? key = some r ∧ ¬ (key, r.id) ∈ m.dead :=
  get?_evict m.dead m.entries key r

theorem mem_prune (m : WeakValueMap) (r : WeakReference) :
    r ∈ m.prune.2 ↔ ∃ key, m.entries.get? key = some r ∧ (key, r.id) ∈ m.dead :=
  mem_evict m.dead m.entries r

theorem mem_references (m : WeakValueMap) (r : WeakReference) :
    r ∈ m.references ↔ ∃ key, m.entries.get? key = some r := by
  simp only [references, Table.values, List.mem_map, Prod.exists, exists_eq_right,
    Table.get?_eq_some_iff]

end WeakValueMap

end WeakRefs
