import WeakRefs.Proofs.HeapCourse

/-!
# Names of objects

The generation of a slot tells how often the slot was vacated, as far as a 32-bit word goes. After 2
^ 32 times a name comes back.
-/

namespace WeakRefs

namespace Heap
variable {φ : Type} {h heap : Heap φ} {index : Nat}

/-- Whether an object is in a slot. -/
def isFull (h : Heap φ) (index : Nat) : Bool := (h.objectAt? index).isSome

/-- What becomes of a slot while nothing is allocated: vacated, it gets the next generation. -/
structure Ages (index : Nat) (h heap : Heap φ) : Prop where
  unfilled : heap.isFull index = true → h.isFull index = true
  generation : heap.generationAt index =
    h.generationAt index + if h.isFull index && !heap.isFull index then 1 else 0

namespace Ages

theorem of_same (full : heap.isFull index = h.isFull index)
    (generation : heap.generationAt index = h.generationAt index) : Ages index h heap where
  unfilled now := full.symm.trans now
  generation := by simp [full, generation]

theorem of_slots (same : heap.slots = h.slots) : Ages index h heap := by
  apply of_same
  · unfold isFull objectAt?
    rw [same]
  · unfold generationAt
    rw [same]

theorem refl (index : Nat) (h : Heap φ) : Ages index h h := of_slots rfl

theorem trans {h' : Heap φ} (first : Ages index h heap) (next : Ages index heap h') :
    Ages index h h' where
  unfilled now := first.unfilled (next.unfilled now)
  generation := by
    have unfilled := first.unfilled
    have unfilled' := next.unfilled
    rw [next.generation, first.generation]
    cases before : h.isFull index <;> cases mid : heap.isFull index <;>
      cases now : h'.isFull index <;> simp_all

theorem setObject {r : ObjectRef} {o : Object φ} (live : h.object? r = some o) (o' : Object φ) :
    Ages index h (h.setObject r o') := by
  have slot := h.object?_eq_some_iff.mp live
  have inside := h.lt_size_of_object? live
  apply of_same
  · unfold isFull objectAt? Heap.setObject setSlot
    rw [Array.getElem?_setIfInBounds]
    split
    · rename_i same
      rw [← same, slot]
      rfl
    · rfl
  · unfold generationAt Heap.setObject setSlot
    rw [Array.getElem?_setIfInBounds]
    split
    · rename_i same
      rw [← same, slot]
      rfl
    · rfl

theorem upkeep (upkeep : h.Upkeep heap) : Ages index h heap := by
  cases upkeep with
  | retain r =>
    unfold Heap.retain
    split
    · rename_i o live
      exact setObject live _
    · exact refl index h
  | countRun n => exact of_slots rfl
  | countCollection => exact of_slots rfl

theorem define {r : ObjectRef} {f : φ} {a : Affiliation} (kept : h.define r f = .kept heap a) :
    Ages index h heap := by
  obtain ⟨o, live, ⟨_, _, same⟩ | ⟨_, _, same⟩⟩ := define_cases kept
  · rw [same]
    exact setObject live _
  · rw [same]
    exact of_slots rfl

theorem reclaim {dead : Nat} (full : h.isFull dead = true) : Ages index h (h.reclaim dead).1 := by
  have inside : dead < h.slots.size := by
    by_cases inside : dead < h.slots.size
    · exact inside
    · simp [isFull, objectAt?, inside] at full
  by_cases same : dead = index
  · subst same
    have empty : (h.reclaim dead).1.isFull dead = false := by
      rw [isFull, objectAt?_reclaim, if_pos rfl]
      rfl
    refine ⟨fun now => full, ?_⟩
    rw [full, empty]
    simp [generationAt, refAt, Heap.reclaim, inside]
  · apply of_same
    · rw [isFull, objectAt?_reclaim, if_neg fun e => same e.symm, isFull]
    · unfold generationAt Heap.reclaim
      dsimp only
      rw [Array.getElem?_setIfInBounds, if_neg same]

theorem reclaimAll {dead : List Nat} (nodup : dead.Nodup)
    (full : ∀ j ∈ dead, h.isFull j = true) : Ages index h (h.reclaimAll dead).1 := by
  induction dead generalizing h with
  | nil => exact refl index h
  | cons j rest ih =>
    obtain ⟨fresh, nodup⟩ := List.nodup_cons.mp nodup
    refine (reclaim (full j List.mem_cons_self)).trans (ih nodup fun k listed => ?_)
    have other : k ≠ j := fun same => fresh (same ▸ listed)
    rw [isFull, objectAt?_reclaim, if_neg other]
    exact full k (List.mem_cons_of_mem j listed)

theorem reclamation {outcome : Heap φ × List (Reclaimed φ)}
    (reclamation : h.Reclamation outcome) : Ages index h outcome.1 := by
  cases reclamation with
  | sweep =>
    apply reclaimAll h.nodup_unrooted
    intro j due
    obtain ⟨o, live, _⟩ := h.mem_unrooted.mp due
    rw [isFull, live]
    rfl
  | release r =>
    unfold Heap.release
    split
    · exact refl index h
    · rename_i o live
      have written : Ages index h _ := setObject live { o with roots := o.roots - 1 }
      dsimp only
      split
      · refine written.trans (reclaimAll (by simp) fun j listed => ?_)
        have still : (h.setObject r { o with roots := o.roots - 1 }).object? r =
            some { o with roots := o.roots - 1 } := by
          rw [h.object?_setObject live, if_pos rfl]
        rw [List.mem_singleton.mp listed, isFull, Heap.objectAt?_of_object? _ still]
        rfl
      · exact written

theorem course (course : h.Course heap) : Ages index h heap := by
  induction course with
  | refl h => exact refl index h
  | upkeep done => exact upkeep done
  | define kept => exact define kept
  | reclaim done => exact reclamation done
  | trans _ _ first next => exact first.trans next

end Ages

theorem alloc_slot {kind : ObjectKind} {r : ObjectRef} (sound : h.Sound)
    (allocated : h.alloc kind = .ok (heap, r)) :
    h.isFull r.index = false ∧ r = h.refAt r.index ∧
      (∀ j, heap.isFull j = (decide (j = r.index) || h.isFull j)) ∧
      ∀ j, heap.generationAt j = h.generationAt j := by
  have fills := alloc_fills sound allocated
  refine ⟨?_, fills.named.symm, fun j => ?_, generationAt_alloc sound allocated⟩
  · unfold isFull
    rw [fills.empty]
    rfl
  · unfold isFull
    rw [objectAt?_alloc sound allocated]
    by_cases same : j = r.index <;> simp [same]

theorem isLive_of_isFull {r : ObjectRef} (full : h.isFull r.index = true)
    (generation : h.generationAt r.index = r.generation) : h.isLive r = true := by
  obtain ⟨o, there⟩ := Option.isSome_iff_exists.mp full
  have live := h.objectAt?_eq_some_iff.mp there
  have name : h.refAt r.index = r := by rw [refAt, generation]
  rw [name] at live
  rw [isLive, live]
  rfl

end Heap

namespace Session
variable {s s' : Session} {i index : Nat} {c c' : Collector}

/-- Whether an object is in a slot of heap `i`. -/
def isFullIn (s : Session) (i index : Nat) : Bool :=
  (s.collector? i).any fun c => c.heap.isFull index

/-- Whether an operation vacates a slot of heap `i`. -/
def vacates (s : Session) (i index : Nat) (op : Op) : Bool :=
  s.isFullIn i index && !(s.perform op).1.isFullIn i index

/-- How often a run vacates a slot of heap `i`. -/
def vacated (i index : Nat) (s : Session) : List Op → Nat
  | [] => 0
  | op :: rest => (s.vacates i index op).toNat + vacated i index (s.perform op).1 rest

section Generations
variable {owed defined : List (ObjectRef × Finalizer)} {ran : List Finalizer} {op : Op}

theorem vacates_eq (here : s.collector? i = some c)
    (there : (s.perform op).1.collector? i = some c') :
    s.vacates i index op = (c.heap.isFull index && !c'.heap.isFull index) := by
  simp [vacates, isFullIn, here, there]

variable (index) in
theorem HeapBalance.generation (heapBalance : HeapBalance owed defined ran c)
    (here : s.collector? i = some c)
    (unscripted : op.scripts i = false) (there : (s.perform op).1.collector? i = some c') :
    c'.heap.generationAt index =
      c.heap.generationAt index + if s.vacates i index op then 1 else 0 := by
  rw [vacates_eq here there]
  rcases (perform_course unscripted heapBalance.plain here there).2 with ⟨kind, r, _, allocated,
    _⟩ |
    ⟨course, _⟩
  · obtain ⟨_, _, full, generation⟩ := Heap.alloc_slot heapBalance.sound allocated
    rw [full, generation]
    cases c.heap.isFull index <;> simp
  · exact (Heap.Ages.course course).generation

theorem collector?_perform_of_gone (inside : i < s.collectors.size)
    (gone : s.collector? i = none) (unscripted : op.scripts i = false) :
    (s.perform op).1.collector? i = none := by
  by_cases work : op.heap? = some i
  · have leaves := (perform_of_gone gone work unscripted).2
    exact (collector?_congr leaves.collectors i).trans gone
  · exact (collector?_perform_of_ne work fun _ _ last => Nat.ne_of_lt inside last).trans gone

namespace RunBalance

theorem gone_run (runBalance : RunBalance i owed defined ran s) (inside : i < s.collectors.size)
    (gone : s.collector? i = none) {ops : List Op} (plain : ∀ op ∈ ops, op.scripts i = false) :
    (s.after ops).collector? i = none := by
  induction ops generalizing s owed defined ran with
  | nil => exact gone
  | cons op rest ih =>
    have unscripted := plain op List.mem_cons_self
    have grows := size_collectors_perform runBalance.ownership op
    exact ih (runBalance.perform unscripted) (Nat.lt_of_lt_of_le inside grows)
      (collector?_perform_of_gone inside gone unscripted)
      fun other listed => plain other (List.mem_cons_of_mem op listed)

variable (index) in
theorem generation_run (runBalance : RunBalance i owed defined ran s) {ops : List Op}
    (plain : ∀ op ∈ ops, op.scripts i = false) (here : s.collector? i = some c)
    (there : (s.after ops).collector? i = some c') :
    c'.heap.generationAt index =
        c.heap.generationAt index + .ofNat (vacated i index s ops) ∧
      (vacated i index s ops = 0 → c.heap.isFull index = true → c'.heap.isFull index = true) := by
  induction ops generalizing s owed defined ran c with
  | nil =>
    cases here.symm.trans there
    exact ⟨(UInt32.add_zero _).symm, fun _ full => full⟩
  | cons op rest ih =>
    have unscripted := plain op List.mem_cons_self
    have others : ∀ other ∈ rest, other.scripts i = false :=
      fun other listed => plain other (List.mem_cons_of_mem op listed)
    have grows := size_collectors_perform runBalance.ownership op
    have next := runBalance.perform unscripted
    cases mid : (s.perform op).1.collector? i with
    | none =>
      have inside := Nat.lt_of_lt_of_le (s.lt_size_of_collector? here) grows
      cases (next.gone_run inside mid others).symm.trans there
    | some d =>
      have step := (runBalance.there c here).generation index here unscripted mid
      obtain ⟨generation, full⟩ := ih next others mid there
      rw [vacates_eq here mid] at step
      rw [vacated, vacates_eq here mid, generation, step, UInt32.ofNat_add]
      cases before : c.heap.isFull index <;> cases now : d.heap.isFull index <;>
        simp_all [UInt32.add_assoc]

end RunBalance

end Generations

/-- What a name is good for whose object is gone: nothing is found under it, and what is done under
it leaves the objects and the finalizers of all names alone. -/
structure Stale (i : Nat) (r : ObjectRef) (s : Session) : Prop where
  views : ∀ c, s.collector? i = some c →
    c.heap.isLive r = false ∧ c.isReachable r = false ∧ c.heap.kind? r = none
  retain : (s.perform (.retain i r)).1 = s
  release : (s.perform (.release i r)).1 = s
  define : ∀ focus f j q,
    ((s.define focus i r f).1.collector? j).map (fun d => (d.heap.object? q, d.heap.pendingOf q)) =
      (s.collector? j).map fun d => (d.heap.object? q, d.heap.pendingOf q)

theorem stale_of_gone (gone : s.collector? i = none) (r : ObjectRef) : Stale i r s where
  views c here := by
    cases gone.symm.trans here
  retain := modifyCollector_of_gone gone _
  release := by
    change s.releaseRoot i r = s
    unfold releaseRoot
    rw [gone]
  define focus f j q := by
    unfold define
    rw [gone]

theorem stale_of_dead (here : s.collector? i = some c) (plain : c.IsPlain) {r : ObjectRef}
    (dead : c.heap.object? r = none) : Stale i r s where
  views d there := by
    cases here.symm.trans there
    rw [plain.isReachable]
    simp [Heap.isLive, Heap.isReachable, Heap.kind?, dead]
  retain := by
    have same : c.heap.retain r = c.heap := by
      unfold Heap.retain
      rw [dead]
    change s.retain i r = s
    unfold Session.retain
    rw [modifyHeap_eq here, same]
    exact setCollector_self here
  release := by
    have same : c.heap.release r = (c.heap, []) := by
      unfold Heap.release
      rw [dead]
    change s.releaseRoot i r = s
    unfold releaseRoot
    rw [here]
    dsimp only
    rw [same]
    unfold settle
    rw [modifyHeap_eq here, setCollector_self here]
    change s.modifyHeap i _ = s
    rw [modifyHeap_eq here]
    exact setCollector_self here
  define focus f j q := by
    have live : c.heap.isLive r = false := by
      rw [Heap.isLive, dead]
      rfl
    rcases define_plain here plain focus r f with ⟨heap, a, kept, done⟩ | ⟨_, done⟩ | ⟨e, _, done⟩
    · cases (Heap.isLive_of_kept kept).symm.trans live
    · have same := collector?_congr (s.collectors_deliver focus c.heap.pins f)
      rw [done]
      change (((s.deliver focus c.heap.pins f).modifyHeap i _).collector? j).map _ = _
      rw [modifyHeap_eq ((same i).trans here),
        collector?_setCollector _ ((same i).trans here), same]
      split
      · rename_i named
        rw [named, here]
        rfl
      · rfl
    · rw [done]

theorem mod_eq_zero_of_add_ofNat_eq {g : UInt32} {n : Nat} (same : g + .ofNat n = g) :
    n % 4294967296 = 0 := by
  have nat := congrArg UInt32.toNat same
  have small := g.toNat_lt
  rw [UInt32.toNat_add, UInt32.toNat_ofNat'] at nat
  omega

section Alloc
variable {owed defined : List (ObjectRef × Finalizer)} {ran : List Finalizer} {ops : List Op}
variable {kind : ObjectKind} {r : ObjectRef}

theorem alloc_cases (made : s.perform (.alloc i kind) = (s', .object (some r))) :
    ∃ c heap, s.collector? i = some c ∧ c.heap.alloc kind = .ok (heap, r) ∧
      s' = s.setCollector i { c with heap } := by
  cases here : s.collector? i with
  | none =>
    rw [perform_alloc_of_gone here] at made
    cases made
  | some c =>
    rcases perform_alloc_cases here kind with ⟨heap, q, allocated, done⟩ | ⟨e, failed⟩
    · rw [done] at made
      cases made
      exact ⟨c, heap, rfl, allocated, rfl⟩
    · rw [failed] at made
      cases made

/-- The slot of a name some time after the name was given. -/
structure Aged (i : Nat) (r : ObjectRef) (s : Session) (ops : List Op) (c : Collector) : Prop where
  plain : c.IsPlain
  sound : c.heap.Sound
  generation : c.heap.generationAt r.index = r.generation + .ofNat (vacated i r.index s ops)
  full : vacated i r.index s ops = 0 → c.heap.isFull r.index = true

theorem RunBalance.aged (runBalance : RunBalance i owed defined ran s)
    (made : s.perform (.alloc i kind) = (s', .object (some r)))
    (plain : ∀ op ∈ ops, op.scripts i = false) (there : (s'.after ops).collector? i = some c) :
    Aged i r s' ops c := by
  obtain ⟨d, heap, here, allocated, new⟩ := alloc_cases made
  obtain ⟨_, named, filled, generation⟩ := Heap.alloc_slot (runBalance.there d here).sound allocated
  have next : RunBalance i _ _ _ (s.perform (.alloc i kind)).1 := runBalance.perform rfl
  rw [made] at next
  have now : s'.collector? i = some { d with heap } := by
    rw [new]
    exact collector?_setCollector_self here _
  have heapBalance := (next.run plain).there c there
  obtain ⟨age, stays⟩ := next.generation_run r.index plain now there
  refine ⟨heapBalance.plain, heapBalance.sound, ?_, fun never => stays never (by simp [filled])⟩
  rw [age, generation]
  exact congrArg (· + _) (congrArg ObjectRef.generation named).symm

namespace Aged

theorem isLive (aged : Aged i r s ops c) (never : vacated i r.index s ops = 0) :
    c.heap.isLive r = true := by
  have generation := aged.generation
  rw [never] at generation
  exact Heap.isLive_of_isFull (aged.full never) (generation.trans (UInt32.add_zero _))

theorem object? (aged : Aged i r s ops c) (apart : vacated i r.index s ops % 4294967296 ≠ 0) :
    c.heap.object? r = none := by
  cases live : c.heap.object? r with
  | none => rfl
  | some o =>
    have name := congrArg ObjectRef.generation (c.heap.refAt_of_object? live)
    exact absurd (mod_eq_zero_of_add_ofNat_eq (aged.generation.symm.trans name)) apart

theorem alloc_ne (aged : Aged i r s ops c)
    (apart : vacated i r.index s ops = 0 ∨ vacated i r.index s ops % 4294967296 ≠ 0)
    {kind : ObjectKind} {heap : Heap Finalizer} {q : ObjectRef}
    (allocated : c.heap.alloc kind = .ok (heap, q)) : q ≠ r := by
  intro same
  obtain ⟨empty, named, _⟩ := Heap.alloc_slot aged.sound allocated
  rw [same] at empty named
  rcases apart with never | apart
  · cases empty.symm.trans (aged.full never)
  · have name := congrArg ObjectRef.generation named
    exact apart (mod_eq_zero_of_add_ofNat_eq (aged.generation.symm.trans name.symm))

end Aged

end Alloc

end Session

/-- Once the slot of a name was vacated, the name is stale unless the slot was vacated a multiple of
2 ^ 32 times since. Up to the first multiple no allocation gives it again. -/
theorem name_is_stale_after_reclaim {i : Nat} {ops more : List Op} {kind : ObjectKind} {s : Session}
    {r : ObjectRef} (plain : ∀ op ∈ ops ++ more, op.scripts i = false)
    (made : (Session.after {} ops).perform (.alloc i kind) = (s, .object (some r))) :
    (Session.vacated i r.index s more = 0 →
      ∀ c, (s.after more).collector? i = some c → c.heap.isLive r = true) ∧
    ((s.after more).collector? i = none ∨ Session.vacated i r.index s more % 4294967296 ≠ 0 →
      Session.Stale i r (s.after more)) ∧
    (Session.vacated i r.index s more = 0 ∨ Session.vacated i r.index s more % 4294967296 ≠ 0 →
      ∀ kind, ((s.after more).perform (.alloc i kind)).2 ≠ .object (some r)) := by
  have before : ∀ op ∈ ops, op.scripts i = false := fun op listed =>
    plain op (List.mem_append_left more listed)
  have later : ∀ op ∈ more, op.scripts i = false := fun op listed =>
    plain op (List.mem_append_right ops listed)
  have aged {c : Collector} (there : (s.after more).collector? i = some c) :=
    (Session.RunBalance.start.run before).aged made later there
  refine ⟨fun never c there => (aged there).isLive never, fun ended => ?_, fun apart kind again =>
    ?_⟩
  · cases there : (s.after more).collector? i with
    | none => exact Session.stale_of_gone there r
    | some c =>
      rcases ended with gone | apart
      · cases gone.symm.trans there
      · exact Session.stale_of_dead there (aged there).plain ((aged there).object? apart)
  · obtain ⟨c, heap, there, allocated, _⟩ := Session.alloc_cases (Prod.ext rfl again)
    exact (aged there).alloc_ne apart allocated rfl

/-- A released object whose slot is in use again: the old name is stale, the new one is another. -/
theorem name_is_stale_after_release : ∃ s : Session,
    (Session.after {} [.newHeap {}]).perform (.alloc 0 .emittable) = (s, .object (some ⟨0, 0⟩)) ∧
      Session.vacated 0 0 s [.release 0 ⟨0, 0⟩, .alloc 0 .plain] = 1 ∧
      Session.Stale 0 ⟨0, 0⟩ (s.after [.release 0 ⟨0, 0⟩, .alloc 0 .plain]) := by
  obtain ⟨s, start⟩ : ∃ s, s = ((Session.after {} [.newHeap {}]).perform (.alloc 0 .emittable)).1 :=
    ⟨_, rfl⟩
  have answer : ((Session.after {} [.newHeap {}]).perform (.alloc 0 .emittable)).2 =
      .object (some ⟨0, 0⟩) := by decide +kernel
  have made : (Session.after {} [.newHeap {}]).perform (.alloc 0 .emittable) =
      (s, .object (some ⟨0, 0⟩)) := Prod.ext start.symm answer
  have once : Session.vacated 0 0 s [.release 0 ⟨0, 0⟩, .alloc 0 .plain] = 1 := by
    rw [start]
    decide +kernel
  refine ⟨s, made, once, (name_is_stale_after_reclaim (by decide) made).2.1 (Or.inr ?_)⟩
  rw [once]
  decide

/-- An object comes and goes, `n` times: each under the name that the one slot has. -/
def rounds (n : Nat) : List Op :=
  (List.range n).flatMap fun k => [.alloc 0 .emittable, .release 0 ⟨0, .ofNat k⟩]

theorem Heap.round_of_slot {φ : Type} {h : Heap φ} {g : UInt32} (slots : h.slots = #[⟨g, none⟩])
    (free : h.free = [0]) : ∃ heap, h.alloc .emittable = .ok (heap, ⟨0, g⟩) ∧
      heap.isLive ⟨0, g⟩ = true ∧ (heap.release ⟨0, g⟩).1.slots = #[⟨g + 1, none⟩] ∧
      (heap.release ⟨0, g⟩).1.free = [0] := by
  obtain ⟨runtime, config, pins, _, _, side, stats⟩ := h
  subst slots free
  refine ⟨_, rfl, ?_⟩
  simp [isLive, release, reclaimAll, reclaim, object?, setObject, setSlot, refAt, generationAt,
    Object.isUnrooted]

theorem Session.slot_of_rounds (n : Nat) :
    ∃ c, (Session.after {} (.newHeap {} :: rounds (n + 1))).collector? 0 = some c ∧
      c.heap.slots = #[⟨.ofNat (n + 1), none⟩] ∧ c.heap.free = [0] := by
  induction n with
  | zero => exact ⟨_, rfl, rfl, rfl⟩
  | succ n ih =>
    obtain ⟨c, here, slots, free⟩ := ih
    have last : rounds (n + 1 + 1) =
        rounds (n + 1) ++ [.alloc 0 .emittable, .release 0 ⟨0, .ofNat (n + 1)⟩] := by
      unfold rounds
      rw [List.range_succ, List.flatMap_append, List.flatMap_singleton]
    have word : UInt32.ofNat (n + 1 + 1) = .ofNat (n + 1) + 1 := UInt32.ofNat_add (n + 1) 1
    rw [last, word, ← List.cons_append, after_append]
    generalize Session.after {} (.newHeap {} :: rounds (n + 1)) = s at here
    obtain ⟨heap, allocated, _, slots, free⟩ := Heap.round_of_slot slots free
    have now := collector?_setCollector_self here { c with heap }
    have settled := collector?_settle now .idle (heap.release ⟨0, .ofNat (n + 1)⟩)
    refine ⟨_, Eq.trans ?_ settled, slots, free⟩
    change ((s.perform (.alloc 0 .emittable)).1.releaseRoot 0 _).collector? 0 = _
    rw [perform_alloc_of_ok here allocated]
    unfold releaseRoot
    rw [now]

/-- After 2 ^ 32 objects in one slot the name of the first is that of a live object again. -/
theorem name_returns_after_wrap : ∃ s : Session,
    s = .after {} (.newHeap {} :: rounds 4294967296) ∧
    ((Session.after {} [.newHeap {}]).perform (.alloc 0 .emittable)).2 = .object (some ⟨0, 0⟩) ∧
    (Session.after {} (.newHeap {} :: rounds 1)).isLiveIn 0 ⟨0, 0⟩ = false ∧
    (s.perform (.alloc 0 .emittable)).2 = .object (some ⟨0, 0⟩) ∧
    (s.perform (.alloc 0 .emittable)).1.isLiveIn 0 ⟨0, 0⟩ = true := by
  obtain ⟨c, here, slots, free⟩ := Session.slot_of_rounds 4294967295
  obtain ⟨heap, allocated, live, _⟩ := Heap.round_of_slot slots free
  obtain ⟨s, run⟩ : ∃ s, s = Session.after {} (.newHeap {} :: rounds 4294967296) := ⟨_, rfl⟩
  rw [show 4294967295 + 1 = 4294967296 from rfl, ← run] at here
  rw [show UInt32.ofNat (4294967295 + 1) = 0 from rfl] at allocated live
  have made := Session.perform_alloc_of_ok here allocated
  refine ⟨s, run, by decide +kernel, by decide +kernel, ?_, ?_⟩
  · rw [made]
  · rw [made]
    exact (Session.isLiveIn_eq (Session.collector?_setCollector_self here _) _).trans live

end WeakRefs
