/-!
# Tables: finite maps as lists of pairs with distinct keys

Every operation is described by what `get?` answers afterwards. The pairs stand in the order in
which their keys first came in.
-/

namespace WeakRefs

/-- A finite map from `κ` to `ν`. -/
structure Table (κ ν : Type) where
  pairs : List (κ × ν)
  nodup : (pairs.map Prod.fst).Nodup

namespace Table
variable {κ ν : Type}

def empty : Table κ ν := ⟨[], List.nodup_nil⟩

instance : EmptyCollection (Table κ ν) := ⟨empty⟩
instance : Inhabited (Table κ ν) := ⟨empty⟩

def size (t : Table κ ν) : Nat := t.pairs.length

def values (t : Table κ ν) : List ν := t.pairs.map Prod.snd

def filter (p : κ → ν → Bool) (t : Table κ ν) : Table κ ν :=
  ⟨t.pairs.filter fun e => p e.1 e.2, t.nodup.sublist (List.filter_sublist.map Prod.fst)⟩

theorem mem_pairs_filter {p : κ → ν → Bool} {t : Table κ ν} {e : κ × ν} :
    e ∈ (t.filter p).pairs ↔ e ∈ t.pairs ∧ p e.1 e.2 = true := List.mem_filter

section Decidable
variable [DecidableEq κ]

def get? (t : Table κ ν) (k : κ) : Option ν :=
  (t.pairs.find? fun e => e.1 = k).map Prod.snd

def erase (t : Table κ ν) (k : κ) : Table κ ν := t.filter fun k' _ => k' ≠ k

def replaceAt (pairs : List (κ × ν)) (k : κ) (v : ν) : List (κ × ν) :=
  pairs.map fun e => if e.1 = k then (e.1, v) else e

theorem keys_replaceAt (pairs : List (κ × ν)) (k : κ) (v : ν) :
    (replaceAt pairs k v).map Prod.fst = pairs.map Prod.fst := by
  rw [replaceAt, List.map_map]
  refine List.map_congr_left fun e _ => ?_
  simp only [Function.comp_apply]
  split <;> rfl

/-- Give `k` the value `v`, in place if it is a key and at the end if it is not. -/
def insert (t : Table κ ν) (k : κ) (v : ν) : Table κ ν :=
  if h : k ∈ t.pairs.map Prod.fst then
    ⟨replaceAt t.pairs k v, by rw [keys_replaceAt]; exact t.nodup⟩
  else
    ⟨t.pairs ++ [(k, v)], by
      rw [List.map_append, List.nodup_append]
      refine ⟨t.nodup, by simp, ?_⟩
      intro a ha b hb hab
      simp only [List.map_cons, List.map_nil, List.mem_singleton] at hb
      exact h (hb ▸ hab ▸ ha)⟩

@[simp] theorem get?_empty (k : κ) : (∅ : Table κ ν).get? k = none := rfl

theorem get?_eq_some_iff {t : Table κ ν} {k : κ} {v : ν} :
    t.get? k = some v ↔ (k, v) ∈ t.pairs := by
  cases t with
  | mk pairs nodup =>
    simp only [get?]
    induction pairs with
    | nil => simp
    | cons e rest ih =>
      obtain ⟨k', v'⟩ := e
      obtain ⟨fresh, tail⟩ := List.nodup_cons.mp nodup
      by_cases same : k' = k
      · subst same
        simp only [List.find?_cons, decide_true, Option.map_some, Option.some.injEq,
          List.mem_cons, Prod.mk.injEq, true_and]
        constructor
        · exact fun h => Or.inl h.symm
        · rintro (h | h)
          · exact h.symm
          · exact absurd (List.mem_map_of_mem (f := Prod.fst) h) fresh
      · have other : ¬ k = k' := fun h => same h.symm
        simp [same, other, ih tail]

theorem get?_eq_none_iff {t : Table κ ν} {k : κ} :
    t.get? k = none ↔ ¬ k ∈ t.pairs.map Prod.fst := by
  simp only [get?, Option.map_eq_none_iff, List.find?_eq_none, List.mem_map, Prod.exists,
    exists_and_right, exists_eq_right, decide_eq_true_eq, Prod.forall, not_exists]
  exact ⟨fun h v hv => h k v hv rfl, fun h a b hab hk => h b (hk ▸ hab)⟩

theorem get?_filter_eq_some_iff {p : κ → ν → Bool} {t : Table κ ν} {k : κ} {v : ν} :
    (t.filter p).get? k = some v ↔ t.get? k = some v ∧ p k v = true := by
  simp only [get?_eq_some_iff, mem_pairs_filter]

theorem get?_erase (t : Table κ ν) (k k' : κ) :
    (t.erase k).get? k' = if k' = k then none else t.get? k' := by
  refine Option.ext fun v => ?_
  rw [erase, get?_filter_eq_some_iff]
  by_cases h : k' = k <;> simp [h]

theorem get?_insert (t : Table κ ν) (k k' : κ) (v : ν) :
    (t.insert k v).get? k' = if k' = k then some v else t.get? k' := by
  refine Option.ext fun w => ?_
  rw [get?_eq_some_iff, insert]
  split
  · rename_i present
    simp only [replaceAt, List.mem_map, Prod.exists]
    by_cases h : k' = k
    · subst h
      simp only [↓reduceIte, Option.some.injEq]
      constructor
      · rintro ⟨a, b, hab, he⟩
        by_cases ha : a = k'
        · simp only [ha, ↓reduceIte, Prod.mk.injEq, true_and] at he
          exact he
        · simp [ha] at he
      · rintro rfl
        obtain ⟨e, he, rfl⟩ := List.mem_map.mp present
        exact ⟨e.1, e.2, he, by simp⟩
    · simp only [h, ↓reduceIte, get?_eq_some_iff]
      constructor
      · rintro ⟨a, b, hab, he⟩
        by_cases ha : a = k
        · simp only [ha, ↓reduceIte, Prod.mk.injEq] at he
          exact absurd he.1.symm h
        · simp only [ha, ↓reduceIte, Prod.mk.injEq] at he
          exact he.1 ▸ he.2 ▸ hab
      · intro hw
        exact ⟨k', w, hw, by simp [h]⟩
  · rename_i absent
    simp only [List.mem_append, List.mem_singleton, Prod.mk.injEq]
    by_cases h : k' = k
    · subst h
      have gone : t.get? k' = none := get?_eq_none_iff.mpr absent
      rw [← get?_eq_some_iff, gone]
      simp [eq_comm]
    · simp [h, get?_eq_some_iff]

end Decidable

end Table

end WeakRefs
