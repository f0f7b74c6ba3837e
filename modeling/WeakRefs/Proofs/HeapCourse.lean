import Mathlib.Data.List.Induction
import WeakRefs.Proofs.Ownership
import WeakRefs.Proofs.RunOnce

/-!
# The course of a heap

Between its creation and its shutdown a heap without a script gives out names by allocations, and
for the rest it follows a `Course`. Hence `heap_induction`.
-/

namespace WeakRefs

/-- What can become of a heap between two allocations. -/
inductive Heap.Course {φ : Type} : Heap φ → Heap φ → Prop where
  | refl (h : Heap φ) : Course h h
  | upkeep {h heap : Heap φ} : h.Upkeep heap → Course h heap
  | define {h heap : Heap φ} {r : ObjectRef} {f : φ} {a : Affiliation} :
    h.define r f = .kept heap a → Course h heap
  | reclaim {h : Heap φ} {outcome : Heap φ × List (Reclaimed φ)} :
    h.Reclamation outcome → Course h outcome.1
  | trans {h h' h'' : Heap φ} : Course h h' → Course h' h'' → Course h h''

namespace Session
variable {s s' : Session} {i : Nat} {c c' : Collector}

section Traces
variable {α : Type} (f : Session → Op → List α)

/-- What the operations of a run come to, one after the other. -/
def trace (s : Session) : List Op → List α
  | [] => []
  | op :: rest => f s op ++ trace (s.perform op).1 rest

theorem trace_append (s : Session) (ops more : List Op) :
    trace f s (ops ++ more) = trace f s ops ++ trace f (s.after ops) more := by
  induction ops generalizing s with
  | nil => rfl
  | cons op rest ih => rw [List.cons_append, trace, trace, ih, after_cons, List.append_assoc]

theorem trace_concat (s : Session) (ops : List Op) (op : Op) :
    trace f s (ops ++ [op]) = trace f s ops ++ f (s.after ops) op := by
  rw [trace_append, trace, trace, List.append_nil]

theorem mem_trace {s : Session} {ops : List Op} {x : α} (listed : x ∈ trace f s ops) :
    ∃ t op, op ∈ ops ∧ x ∈ f t op := by
  induction ops generalizing s with
  | nil => cases listed
  | cons op rest ih =>
    rcases List.mem_append.mp listed with now | later
    · exact ⟨s, op, List.mem_cons_self, now⟩
    · obtain ⟨t, other, among, there⟩ := ih later
      exact ⟨t, other, List.mem_cons_of_mem op among, there⟩

end Traces

theorem HeapSteps.course {accepted ran : List (ObjectRef × Finalizer)}
    (served : HeapSteps i accepted ran s s') (here : s.collector? i = some c) (plain : c.IsPlain) :
    ∃ c', s'.collector? i = some c' ∧ c'.IsPlain ∧ c.heap.Course c'.heap := by
  induction served generalizing c with
  | leaves leaves =>
    exact ⟨c, (collector?_congr leaves.collectors i).trans here, plain, .refl _⟩
  | upkeep there upkeep _ =>
    cases here.symm.trans there
    exact ⟨_, collector?_setCollector_self here _, ⟨plain.script, plain.stash, plain.reach⟩,
      .upkeep upkeep⟩
  | keep there kept =>
    cases here.symm.trans there
    exact ⟨_, collector?_setCollector_self here _, ⟨plain.script, plain.stash, plain.reach⟩,
      .define kept⟩
  | late there delivers =>
    cases here.symm.trans there
    have still := (collector?_congr delivers.collectors i).trans here
    rw [modifyHeap_eq still]
    exact ⟨_, collector?_setCollector_self still _, ⟨plain.script, plain.stash, plain.reach⟩,
      .upkeep (.countRun 1)⟩
  | @reclaim s s₁ s' d outcome there reclamation leaves delivers =>
    cases here.symm.trans there
    have written := collector?_setCollector_self here { d with heap := outcome.1 }
    have still := (collector?_congr delivers.collectors i).trans
      ((collector?_congr leaves.collectors i).trans written)
    rw [modifyHeap_eq still]
    exact ⟨_, collector?_setCollector_self still _, ⟨plain.script, plain.stash, plain.reach⟩,
      (Heap.Course.reclaim reclamation).trans (.upkeep (.countRun _))⟩
  | scripted there scripted _ =>
    cases here.symm.trans there
    exact absurd plain scripted
  | trans _ _ ih ih' =>
    obtain ⟨c', here', plain', first⟩ := ih here plain
    obtain ⟨c'', here'', plain'', next⟩ := ih' here' plain'
    exact ⟨c'', here'', plain'', first.trans next⟩

/-- The name that heap `i` gives to an object in an operation, if it does. -/
def givenBy (s : Session) (i : Nat) (op : Op) : List ObjectRef :=
  match op, (s.perform op).2 with
  | .alloc j _, .object (some r) => if j = i then [r] else []
  | _, _ => []

/-- The names that heap `i` has given in a run, oldest first. -/
def given (i : Nat) (s : Session) (ops : List Op) : List ObjectRef :=
  trace (fun s op => s.givenBy i op) s ops

theorem given_concat (s : Session) (ops : List Op) (op : Op) :
    given i s (ops ++ [op]) = given i s ops ++ (s.after ops).givenBy i op := trace_concat _ s ops op

theorem givenBy_of_ne {op : Op} (other : ∀ kind, op ≠ .alloc i kind) : s.givenBy i op = [] := by
  unfold givenBy
  split
  · rename_i j kind r _
    by_cases same : j = i
    · exact absurd (same ▸ rfl) (other kind)
    · exact if_neg same
  · rfl

theorem perform_course {op : Op} (unscripted : op.scripts i = false) (plain : c.IsPlain)
    (here : s.collector? i = some c) (there : (s.perform op).1.collector? i = some c') :
    c'.IsPlain ∧ ((∃ kind r, op = .alloc i kind ∧ c.heap.alloc kind = .ok (c'.heap, r) ∧
      s.givenBy i op = [r]) ∨ c.heap.Course c'.heap ∧ s.givenBy i op = []) := by
  by_cases allocates : ∃ kind, op = .alloc i kind
  · obtain ⟨kind, same⟩ := allocates
    subst same
    rcases perform_alloc_cases here kind with ⟨heap, r, allocated, done⟩ | ⟨e, failed⟩
    · rw [done, collector?_setCollector_self here] at there
      cases there
      refine ⟨⟨plain.script, plain.stash, plain.reach⟩, Or.inl ⟨kind, r, rfl, allocated, ?_⟩⟩
      simp [givenBy, done]
    · rw [failed] at there
      cases here.symm.trans there
      refine ⟨plain, Or.inr ⟨.refl _, ?_⟩⟩
      simp [givenBy, failed]
  have noNewSlots : ∀ kind, op ≠ .alloc i kind := fun kind same => allocates ⟨kind, same⟩
  have none_given := givenBy_of_ne (s := s) noNewSlots
  by_cases work : op.heap? = some i
  · have calm : op ≠ .shutDown i := by
      intro same
      rw [same] at there
      cases ((collector?_shutDown s i i).trans (if_pos rfl)).symm.trans there
    obtain ⟨ran, served⟩ := perform_heapSteps (s := s) work calm noNewSlots unscripted
    obtain ⟨d, now, plain', course⟩ := served.course here plain
    cases now.symm.trans there
    exact ⟨plain', Or.inr ⟨course, none_given⟩⟩
  · have still := collector?_perform_of_ne (s := s) work fun _ _ last =>
      Nat.ne_of_lt (s.lt_size_of_collector? here) last
    cases (still.trans here).symm.trans there
    exact ⟨plain, Or.inr ⟨.refl _, none_given⟩⟩

theorem perform_opens {op : Op} (unscripted : op.scripts i = false) (absent : s.collector? i = none)
    (there : (s.perform op).1.collector? i = some c) :
    ∃ config, op = .newHeap config ∧ i = s.collectors.size ∧
      c = { heap := { runtime := ⟨s.runtimes + 1⟩, config, pins := s.pinSets.size } } := by
  by_cases work : op.heap? = some i
  · have leaves := (perform_of_gone absent work unscripted).2
    cases ((collector?_congr leaves.collectors i).trans absent).symm.trans there
  by_cases new : ∃ config, op = .newHeap config ∧ i = s.collectors.size
  · obtain ⟨config, same, last⟩ := new
    refine ⟨config, same, last, ?_⟩
    rw [same] at there
    exact Option.some.inj (there.symm.trans ((s.collector?_newHeap config i).trans (if_pos last)))
  · have still := collector?_perform_of_ne (s := s) work fun config same last =>
      new ⟨config, same, last⟩
    cases (still.trans absent).symm.trans there

theorem size_collectors_mono {ops before : List Op} (part : before <+: ops) :
    (Session.after {} before).collectors.size ≤ (Session.after {} ops).collectors.size := by
  obtain ⟨more, rfl⟩ := part
  induction more using List.reverseRecOn with
  | nil => exact Nat.le_of_eq (by rw [List.append_nil])
  | append_singleton more op ih =>
    rw [← List.append_assoc, after_append]
    exact Nat.le_trans ih (size_collectors_perform (ownership_after _) op)

theorem given_of_unopened {ops : List Op} (unopened : (Session.after {} ops).collectors.size ≤ i) :
    given i {} ops = [] := by
  induction ops using List.reverseRecOn with
  | nil => rfl
  | append_singleton ops op ih =>
    have before := Nat.le_trans (size_collectors_mono (List.prefix_append ops [op])) unopened
    have absent : (Session.after {} ops).collector? i = none := by
      simp [collector?, before]
    rw [given_concat, ih before, List.nil_append]
    by_cases allocates : ∃ kind, op = .alloc i kind
    · obtain ⟨kind, same⟩ := allocates
      rw [same]
      simp [givenBy, perform_alloc_of_gone absent]
    · exact givenBy_of_ne fun kind same => allocates ⟨kind, same⟩

/-- The heap of a collector that is there. -/
def heap? (s : Session) (i : Nat) : Option (Heap Finalizer) := (s.collector? i).map Collector.heap

theorem sound_of_heap? {ops : List Op} {h : Heap Finalizer}
    (here : (Session.after {} ops).heap? i = some h) : h.Sound := by
  obtain ⟨c, there, same⟩ := Option.map_eq_some_iff.mp here
  exact same ▸ (ownership_after ops).heaps i c there

theorem heap_induction {P : List Op → Heap Finalizer → Prop}
    (opened : ∀ ops config h, (Session.after {} ops).collectors.size = i →
      h = { runtime := ⟨(Session.after {} ops).runtimes + 1⟩, config,
            pins := (Session.after {} ops).pinSets.size } →
      (Session.after {} (ops ++ [.newHeap config])).heap? i = some h →
        P (ops ++ [.newHeap config]) h)
    (alloc : ∀ ops kind h heap r, (Session.after {} ops).heap? i = some h → P ops h →
      h.alloc kind = .ok (heap, r) → (Session.after {} ops).givenBy i (.alloc i kind) = [r] →
      (Session.after {} (ops ++ [.alloc i kind])).heap? i = some heap →
      P (ops ++ [.alloc i kind]) heap)
    (course : ∀ ops op h heap, (Session.after {} ops).heap? i = some h → P ops h → h.Course heap →
      (Session.after {} ops).givenBy i op = [] →
      (Session.after {} (ops ++ [op])).heap? i = some heap → P (ops ++ [op]) heap)
    {ops : List Op} (plain : ∀ op ∈ ops, op.scripts i = false)
    (here : (Session.after {} ops).collector? i = some c) : P ops c.heap := by
  suffices both : c.IsPlain ∧ P ops c.heap from both.2
  induction ops using List.reverseRecOn generalizing c with
  | nil => simp [collector?] at here
  | append_singleton ops op ih =>
    have unscripted := plain op (by simp)
    have others : ∀ op ∈ ops, op.scripts i = false := fun op listed =>
      plain op (List.mem_append_left _ listed)
    have now : (Session.after {} (ops ++ [op])).heap? i = some c.heap := by
      rw [heap?, here]
      rfl
    rw [after_append] at here
    cases before : (Session.after {} ops).collector? i with
    | none =>
      obtain ⟨config, same, last, new⟩ := perform_opens unscripted before here
      subst same
      exact ⟨new ▸ ⟨rfl, rfl, rfl⟩, opened ops config c.heap last.symm (congrArg _ new) now⟩
    | some d =>
      have then_there : (Session.after {} ops).heap? i = some d.heap := by
        rw [heap?, before]
        rfl
      obtain ⟨plain, held⟩ := ih others before
      obtain ⟨plain', ⟨kind, r, same, allocated, gives⟩ | ⟨steps, gives⟩⟩ :=
        perform_course unscripted plain before here
      · subst same
        exact ⟨plain', alloc ops kind d.heap c.heap r then_there held allocated gives now⟩
      · exact ⟨plain', course ops op d.heap c.heap then_there held steps gives now⟩

end Session

end WeakRefs
