/-!
# Rosters: finite sets as lists of distinct members

A roster answers membership and size; the order of its members is not observable. The liveness
registry and every pin set are rosters.
-/

namespace WeakRefs

/-- A finite set, held as the list of its members without repetition. -/
structure Roster (α : Type) where
  members : List α
  nodup : members.Nodup

namespace Roster
variable {α : Type}

def empty : Roster α := ⟨[], List.nodup_nil⟩

instance : EmptyCollection (Roster α) := ⟨empty⟩
instance : Inhabited (Roster α) := ⟨empty⟩

instance : Membership α (Roster α) := ⟨fun r a => a ∈ r.members⟩

theorem mem_def {r : Roster α} {a : α} : a ∈ r ↔ a ∈ r.members := Iff.rfl

@[simp] theorem not_mem_empty (a : α) : ¬ a ∈ (∅ : Roster α) := by
  intro h
  cases h

def size (r : Roster α) : Nat := r.members.length

section Decidable
variable [DecidableEq α]

instance (r : Roster α) (a : α) : Decidable (a ∈ r) :=
  inferInstanceAs (Decidable (a ∈ r.members))

def insert (r : Roster α) (a : α) : Roster α :=
  if h : a ∈ r.members then r else ⟨a :: r.members, List.nodup_cons.mpr ⟨h, r.nodup⟩⟩

def erase (r : Roster α) (a : α) : Roster α :=
  ⟨r.members.filter (· ≠ a), r.nodup.sublist List.filter_sublist⟩

@[simp] theorem mem_insert {r : Roster α} {a b : α} : b ∈ r.insert a ↔ b = a ∨ b ∈ r := by
  unfold insert
  split
  · rename_i h
    constructor
    · exact Or.inr
    · rintro (rfl | hb)
      · exact h
      · exact hb
  · exact List.mem_cons

@[simp] theorem mem_erase {r : Roster α} {a b : α} : b ∈ r.erase a ↔ b ≠ a ∧ b ∈ r := by
  simp [erase, mem_def, and_comm]

theorem erase_of_not_mem {r : Roster α} {a : α} (h : ¬ a ∈ r) : r.erase a = r := by
  cases r with
  | mk members nodup =>
    simp only [erase, mk.injEq]
    refine List.filter_eq_self.mpr fun b hb => ?_
    simp only [ne_eq, decide_eq_true_eq]
    rintro rfl
    exact h hb

end Decidable

end Roster

end WeakRefs
