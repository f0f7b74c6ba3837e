import WeakRefs.Proofs.Pending

/-!
# What a heap owes

`Owes` says that a heap keeps for each name just the finalizers of a list, in its order. A
definition extends the list, a reclamation hands back what it has for the names that end, and a
shutdown drains it.
-/

namespace WeakRefs

section Lists
variable {κ β : Type} [DecidableEq κ]

theorem filter_perm_append (p : β → Bool) (l : List β) :
    l.Perm (l.filter p ++ l.filter fun x => !p x) := (List.filter_append_perm p l).symm

theorem flatMap_filter_perm {ks : List κ} (nodup : ks.Nodup) (l : List (κ × β)) :
    (ks.flatMap fun k => l.filter fun d => d.1 = k).Perm (l.filter fun d => d.1 ∈ ks) := by
  induction ks with
  | nil => simp
  | cons k rest ih =>
    obtain ⟨fresh, nodup⟩ := List.nodup_cons.mp nodup
    have first : ((l.filter fun d => d.1 ∈ k :: rest).filter fun d => d.1 = k) =
        l.filter fun d => d.1 = k := by
      rw [List.filter_filter]
      apply List.filter_congr
      intro d _
      by_cases named : d.1 = k <;> simp [named]
    have others : ((l.filter fun d => d.1 ∈ k :: rest).filter fun d => !decide (d.1 = k)) =
        l.filter fun d => d.1 ∈ rest := by
      rw [List.filter_filter]
      apply List.filter_congr
      intro d _
      by_cases named : d.1 = k <;> simp [named, fresh]
    have split := filter_perm_append (fun d => decide (d.1 = k)) (l.filter fun d => d.1 ∈ k :: rest)
    rw [first, others] at split
    exact ((ih nodup).append_left _).trans split.symm

end Lists

namespace Heap
variable {φ : Type}

/-- The heap keeps for each name what the list has for it. -/
def Owes (h : Heap φ) (owed : List (ObjectRef × φ)) : Prop :=
  ∀ r, h.pendingOf r = (owed.filter fun d => d.1 = r).map Prod.snd

/-- What falls due by a reclamation, with the names of the objects that had it. -/
def fallen (h : Heap φ) (reclaimed : List (Reclaimed φ)) : List (ObjectRef × φ) :=
  reclaimed.flatMap fun x => x.due.map fun f => (h.refAt x.index, f)

theorem map_snd_fallen (h : Heap φ) (reclaimed : List (Reclaimed φ)) :
    (h.fallen reclaimed).map Prod.snd = reclaimed.flatMap Reclaimed.due := by
  simp [fallen, List.map_flatMap, Function.comp_def]

namespace Owes
variable {h heap : Heap φ} {owed : List (ObjectRef × φ)}

theorem live (owes : h.Owes owed) (sound : h.Sound) {d : ObjectRef × φ} (listed : d ∈ owed) :
    ∃ o, h.object? d.1 = some o := by
  apply h.live_of_mem_pendingOf sound (f := d.2)
  rw [owes]
  exact List.mem_map_of_mem (List.mem_filter.mpr ⟨listed, by simp⟩)

theorem congr (owes : h.Owes owed) (same : ∀ r, heap.pendingOf r = h.pendingOf r) :
    heap.Owes owed := fun r => (same r).trans (owes r)

theorem isLive (owes : h.Owes owed) (sound : h.Sound) {d : ObjectRef × φ} (listed : d ∈ owed) :
    h.isLive d.1 = true := by
  obtain ⟨o, live⟩ := owes.live sound listed
  rw [Heap.isLive, live]
  rfl

theorem filter_isLive (owes : h.Owes owed) (sound : h.Sound) :
    (owed.filter fun d => h.isLive d.1) = owed :=
  List.filter_eq_self.mpr fun _ listed => owes.isLive sound listed

theorem filter_dead (owes : h.Owes owed) (sound : h.Sound) :
    (owed.filter fun d => !h.isLive d.1) = [] := by
  apply List.filter_eq_nil_iff.mpr
  intro d listed
  simp [owes.isLive sound listed]

end Owes

section Define
variable {h heap : Heap φ} {r : ObjectRef} {f : φ} {a : Affiliation}

theorem pendingOf_define_eq (sound : h.Sound) (kept : h.define r f = .kept heap a) (q : ObjectRef) :
    heap.pendingOf q = h.pendingOf q ++ if q = r then [f] else [] := by
  obtain ⟨o, live, ⟨kind, _, same⟩ | ⟨_, _, same⟩⟩ := define_cases kept
  · subst same
    by_cases target : q = r
    · subst target
      -- An emittable object has nothing in the side table.
      have side : h.sideTable.get? q = none := by
        cases keyed : h.sideTable.get? q with
        | none => rfl
        | some fs =>
          obtain ⟨p, there, plain⟩ := sound.side q fs keyed
          rw [live] at there
          cases there
          rw [kind] at plain
          cases plain
      have same_side : (h.setObject q { o with finalizers := o.finalizers ++ [f] }).sideTable =
          h.sideTable := rfl
      unfold pendingOf
      rw [h.object?_setObject live, if_pos rfl, same_side, side, live, if_pos rfl]
      simp
    · rw [if_neg target, List.append_nil]
      apply pendingOf_congr
      · rw [h.object?_setObject live, if_neg target]
      · rfl
  · subst same
    by_cases target : q = r
    · subst target
      rw [if_pos rfl]
      unfold pendingOf
      rw [Table.get?_insert, if_pos rfl]
      exact (List.append_assoc _ _ _).symm
    · rw [if_neg target, List.append_nil]
      apply pendingOf_congr
      · rfl
      · exact (Table.get?_insert _ _ _ _).trans (if_neg target)

theorem Owes.define {owed : List (ObjectRef × φ)} (owes : h.Owes owed) (sound : h.Sound)
    (kept : h.define r f = .kept heap a) : heap.Owes (owed ++ [(r, f)]) := by
  intro q
  rw [pendingOf_define_eq sound kept, owes, List.filter_append, List.map_append]
  congr 1
  by_cases target : q = r
  · simp [target]
  · have other : ¬ r = q := fun e => target e.symm
    simp [target, other]

end Define

section Reclaim
variable {h : Heap φ} {owed : List (ObjectRef × φ)}

theorem refAt_reclaim_of_ne {index j : Nat} (other : index ≠ j) :
    (h.reclaim index).1.refAt j = h.refAt j := by
  unfold refAt generationAt reclaim
  dsimp only
  rw [Array.getElem?_setIfInBounds, if_neg other]

theorem reclaimed_eq {dead : List Nat} (nodup : dead.Nodup) : (h.reclaimAll dead).2 =
    dead.map fun index => ⟨index, h.pendingOf (h.refAt index)⟩ := by
  induction dead generalizing h with
  | nil => rfl
  | cons index rest ih =>
    obtain ⟨fresh, nodup⟩ := List.nodup_cons.mp nodup
    have later : (h.reclaimAll (index :: rest)).2 =
        (h.reclaim index).2 :: ((h.reclaim index).1.reclaimAll rest).2 := rfl
    rw [later, ih nodup, List.map_cons]
    congr 1
    apply List.map_congr_left
    intro j listed
    have other : index ≠ j := fun e => fresh (e ▸ listed)
    have apart : h.refAt j ≠ h.refAt index := fun e => other (congrArg ObjectRef.index e).symm
    rw [refAt_reclaim_of_ne other, pendingOf_reclaim, if_neg apart]

theorem nodup_map_refAt {indices : List Nat} (nodup : indices.Nodup) :
    (indices.map h.refAt).Nodup :=
  List.Pairwise.map h.refAt (fun _ _ apart same => apart (congrArg ObjectRef.index same)) nodup

theorem fallen_reclaimAll {dead : List Nat} (owes : h.Owes owed) (sound : h.Sound)
    (nodup : dead.Nodup) : (h.fallen (h.reclaimAll dead).2).Perm
      (owed.filter fun d => !(h.reclaimAll dead).1.isLive d.1) := by
  have named : h.fallen (h.reclaimAll dead).2 =
      (dead.map h.refAt).flatMap fun r => owed.filter fun d => d.1 = r := by
    rw [fallen, reclaimed_eq nodup, List.flatMap_map, List.flatMap_map]
    congr 1
    funext index
    rw [owes, List.map_map]
    refine (List.map_congr_left fun d listed => ?_).trans (List.map_id _)
    have name := (List.mem_filter.mp listed).2
    rw [decide_eq_true_eq] at name
    exact Prod.ext name.symm rfl
  have ended : (owed.filter fun d => d.1 ∈ dead.map h.refAt) =
      owed.filter fun d => !(h.reclaimAll dead).1.isLive d.1 := by
    apply List.filter_congr
    intro d listed
    obtain ⟨o, live⟩ := owes.live sound listed
    have name := h.refAt_of_object? live
    have member : d.1 ∈ dead.map h.refAt ↔ d.1.index ∈ dead := by
      rw [List.mem_map]
      constructor
      · rintro ⟨index, there, same⟩
        rw [← same]
        exact there
      · exact fun there => ⟨d.1.index, there, name⟩
    unfold isLive
    rw [h.object?_reclaimAll, live]
    by_cases there : d.1.index ∈ dead
    · simp [there, member]
    · simp [there, member]
  rw [named, ← ended]
  exact flatMap_filter_perm (nodup_map_refAt nodup) owed

/-- A reclamation hands back what is owed to the objects that it ends. -/
theorem fallen_perm {outcome : Heap φ × List (Reclaimed φ)} (owes : h.Owes owed) (sound : h.Sound)
    (reclamation : h.Reclamation outcome) : (h.fallen outcome.2).Perm
      (owed.filter fun d => !outcome.1.isLive d.1) := by
  cases reclamation with
  | sweep => exact fallen_reclaimAll owes sound h.nodup_unrooted
  | release r =>
    cases live : h.object? r with
    | none =>
      have same : h.release r = (h, []) := by
        unfold release
        rw [live]
      rw [same, owes.filter_dead sound]
      exact .refl _
    | some o =>
      unfold release
      rw [live]
      dsimp only
      split
      · have alone : (h.setObject r { o with roots := o.roots - 1 }).reclaimAll [r.index] =
            h.reclaimAll [r.index] := by
          unfold reclaimAll
          rw [reclaim_setObject live { o with roots := o.roots - 1 } rfl]
        rw [alone]
        exact fallen_reclaimAll owes sound (by simp)
      · have same (q : ObjectRef) :
            (h.setObject r { o with roots := o.roots - 1 }).isLive q = h.isLive q := by
          unfold isLive
          rw [h.object?_setObject live]
          split
          · rename_i named
            rw [named, live]
            rfl
          · rfl
        simp only [same, owes.filter_dead sound]
        exact .refl _

theorem Owes.reclaim {outcome : Heap φ × List (Reclaimed φ)} (owes : h.Owes owed) (sound : h.Sound)
    (reclamation : h.Reclamation outcome) :
    outcome.1.Owes (owed.filter fun d => outcome.1.isLive d.1) := by
  have reclaims := Heap.reclaims sound reclamation
  intro r
  rw [List.filter_filter]
  cases live : outcome.1.object? r with
  | none =>
    rw [pendingOf_of_dead _ reclaims.sound live]
    symm
    rw [List.map_eq_nil_iff, List.filter_eq_nil_iff]
    intro d _ both
    rw [Bool.and_eq_true, decide_eq_true_eq] at both
    have alive := both.2
    rw [both.1, Heap.isLive, live] at alive
    cases alive
  | some o =>
    rw [(reclaims.survivor r o live).2, owes]
    congr 1
    apply List.filter_congr
    intro d _
    by_cases named : d.1 = r
    · simp [named, Heap.isLive, live]
    · simp [named]

/-- A reclamation counts no run; its caller does. -/
theorem same_stats_reclamation {outcome : Heap φ × List (Reclaimed φ)}
    (reclamation : h.Reclamation outcome) :
    outcome.1.stats.finalizersRun = h.stats.finalizersRun ∧ outcome.1.config = h.config := by
  obtain ⟨slots, free, sideTable, n, same⟩ := reclamation_eq reclamation
  rw [same]
  exact ⟨rfl, rfl⟩

end Reclaim

section Drain
variable {h : Heap φ} {owed : List (ObjectRef × φ)}

/-- The finalizers that an object has of its own. -/
def ownOf (h : Heap φ) (r : ObjectRef) : List φ := ((h.object? r).map Object.finalizers).getD []

/-- The names of all slots. -/
def names (h : Heap φ) : List ObjectRef := (List.range h.slots.size).map h.refAt

theorem filterMap_range_getElem? {α : Type} (l : List α) :
    (List.range l.length).filterMap (fun j => l[j]?) = l := by
  induction l with
  | nil => rfl
  | cons x rest ih =>
    rw [List.length_cons, List.range_succ_eq_map, List.filterMap_cons, List.filterMap_map]
    exact congrArg (x :: ·) ih

theorem objects_eq (h : Heap φ) : h.objects = (List.range h.slots.size).filterMap h.objectAt? := by
  have slots := filterMap_range_getElem? h.slots.toList
  rw [objects, ← slots, List.filterMap_filterMap, Array.length_toList]
  congr 1
  funext j
  rw [Array.getElem?_toList]
  rfl

theorem pendingDirect_eq (h : Heap φ) : h.pendingDirect = h.names.flatMap h.ownOf := by
  have objects : h.objects = (List.range h.slots.size).filterMap fun j =>
    h.object? (h.refAt j) := by
    rw [objects_eq]
    congr 1
    funext j
    apply Option.ext
    intro o
    exact h.objectAt?_eq_some_iff
  rw [pendingDirect, objects, names, List.flatMap_map]
  generalize List.range h.slots.size = indices
  induction indices with
  | nil => rfl
  | cons j rest ih =>
    rw [List.filterMap_cons, List.flatMap_cons, ← ih, ownOf]
    cases h.object? (h.refAt j) <;> rfl

/-- An object has its finalizers of its own, or all of them in the side table. -/
theorem ownOf_eq (sound : h.Sound) (r : ObjectRef) :
    h.ownOf r = if r ∈ h.sideTable.pairs.map Prod.fst then [] else h.pendingOf r := by
  split
  · rename_i keyed
    cases at_r : h.sideTable.get? r with
    | none => exact absurd keyed (Table.get?_eq_none_iff.mp at_r)
    | some fs =>
      obtain ⟨o, live, plain⟩ := sound.side r fs at_r
      have other : o.kind ≠ .emittable := by
        rw [plain]
        exact nofun
      rw [ownOf, live]
      exact sound.direct r o live other
  · rename_i absent
    have side := Table.get?_eq_none_iff.mpr absent
    unfold pendingOf
    rw [side]
    exact (List.append_nil _).symm

theorem sideTable_of_mem (sound : h.Sound) {r : ObjectRef} {fs : List φ}
    (listed : (r, fs) ∈ h.sideTable.pairs) : fs = h.pendingOf r := by
  have keyed := Table.get?_eq_some_iff.mpr listed
  obtain ⟨o, live, plain⟩ := sound.side r fs keyed
  have other : o.kind ≠ .emittable := by
    rw [plain]
    exact nofun
  unfold pendingOf
  rw [live, keyed]
  have none_own : o.finalizers = [] := sound.direct r o live other
  simp [none_own]

theorem flatMap_ite_nil {α β : Type} (p : α → Prop) [DecidablePred p] (g : α → List β)
    (l : List α) : (l.flatMap fun x => if p x then [] else g x) =
      (l.filter fun x => ¬ p x).flatMap g := by
  induction l with
  | nil => rfl
  | cons x rest ih => by_cases met : p x <;> simp [met, ih]

theorem Owes.flatMap_pendingOf (owes : h.Owes owed) {rs : List ObjectRef} (nodup : rs.Nodup) :
    (rs.flatMap h.pendingOf).Perm ((owed.filter fun d => d.1 ∈ rs).map Prod.snd) := by
  have each : rs.flatMap h.pendingOf =
      (rs.flatMap fun r => owed.filter fun d => d.1 = r).map Prod.snd := by
    rw [List.map_flatMap]
    congr 1
    funext r
    exact owes r
  rw [each]
  exact (flatMap_filter_perm nodup owed).map _

/-- A shutdown drains what is owed, each finalizer once. -/
theorem Owes.drained (owes : h.Owes owed) (sound : h.Sound) {groups : List (ObjectRef × List φ)}
    (all : groups.Perm h.sideTable.pairs) :
    (h.pendingDirect ++ groups.flatMap Prod.snd).Perm (owed.map Prod.snd) := by
  have keys : h.sideTable.pairs.flatMap Prod.snd =
      (h.sideTable.pairs.map Prod.fst).flatMap h.pendingOf := by
    rw [List.flatMap_map, List.flatMap_def, List.flatMap_def]
    congr 1
    apply List.map_congr_left
    intro pair listed
    exact sideTable_of_mem sound listed
  have side : (groups.flatMap Prod.snd).Perm
      ((owed.filter fun d => d.1 ∈ h.sideTable.pairs.map Prod.fst).map Prod.snd) := by
    have sorted := all.flatMap_right Prod.snd
    rw [keys] at sorted
    exact sorted.trans (owes.flatMap_pendingOf h.sideTable.nodup)
  have direct : h.pendingDirect.Perm
      ((owed.filter fun d => !decide (d.1 ∈ h.sideTable.pairs.map Prod.fst)).map Prod.snd) := by
    have own : h.pendingDirect =
        (h.names.filter fun r => ¬ r ∈ h.sideTable.pairs.map Prod.fst).flatMap h.pendingOf := by
      rw [pendingDirect_eq, ← flatMap_ite_nil]
      congr 1
      funext r
      exact ownOf_eq sound r
    have nodup := nodup_map_refAt (h := h) (List.nodup_range (n := h.slots.size))
    have same : (owed.filter fun d => !decide (d.1 ∈ h.sideTable.pairs.map Prod.fst)) =
        owed.filter fun d =>
          d.1 ∈ h.names.filter fun r => ¬ r ∈ h.sideTable.pairs.map Prod.fst := by
      apply List.filter_congr
      intro d listed
      obtain ⟨o, live⟩ := owes.live sound listed
      have named : d.1 ∈ h.names := List.mem_map.mpr
        ⟨d.1.index, List.mem_range.mpr (h.lt_size_of_object? live), h.refAt_of_object? live⟩
      rw [Bool.eq_iff_iff, Bool.not_eq_true', decide_eq_false_iff_not, decide_eq_true_iff,
        List.mem_filter, decide_eq_true_iff]
      exact ⟨fun absent => ⟨named, absent⟩, And.right⟩
    rw [own, same]
    exact owes.flatMap_pendingOf (nodup.sublist List.filter_sublist)
  have whole := (filter_perm_append
    (fun d : ObjectRef × φ => decide (d.1 ∈ h.sideTable.pairs.map Prod.fst)) owed).map Prod.snd
  rw [List.map_append] at whole
  exact (direct.append side).trans (List.perm_append_comm.trans whole.symm)

theorem Owes.pendingCount (owes : h.Owes owed) (sound : h.Sound) :
    h.pendingCount = owed.length := by
  have drained := (owes.drained sound (List.Perm.refl h.sideTable.pairs)).length_eq
  rw [List.length_append, List.length_map, List.flatMap_def] at drained
  exact drained

end Drain

end Heap

end WeakRefs
