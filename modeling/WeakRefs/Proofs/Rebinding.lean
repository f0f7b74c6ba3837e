import WeakRefs.Proofs.Binding
import WeakRefs.Proofs.Failure
import WeakRefs.Proofs.PinDiscipline

/-!
# Binding again

On a heap without a script the outcome of a bind goes by the target alone, whatever state the
reference was in. The old binding is disarmed before the new one arrives.
-/

namespace WeakRefs

namespace Heap
variable {φ : Type} (h : Heap φ) {r : ObjectRef}

/-- How a finalizer is attached to a target: only an emittable object carries it itself. -/
def affiliationTo (r : ObjectRef) : Affiliation :=
  if h.kind? r = some .emittable then .direct else .indirect

theorem isReachable_of_dead (dead : h.isLive r = false) : h.isReachable r = false := by
  unfold isReachable
  rw [Option.isNone_iff_eq_none.mp (Option.isSome_eq_false_iff.mp dead)]
  rfl

end Heap

namespace Collector
variable {c c' : Collector}

/-- Whoever takes in a finalizer has the same objects reachable. -/
theorem TookIn.isReachable {r : ObjectRef} {held kept : List Finalizer}
    (took : c.TookIn c' r held kept) (q : ObjectRef) :
    c'.heap.isReachable q = c.heap.isReachable q := by
  have roots (h : Heap Finalizer) : h.isReachable q =
      ((h.object? q).map fun o => (o.kind, o.roots)).any fun o => 0 < o.2 := by
    unfold Heap.isReachable
    cases h.object? q <;> rfl
  rw [roots, roots, took.objects]

end Collector

theorem Pinning.mem_pinned_iff {P : Nat} {s : Session} (pinning : Pinning P ⟨s, none, [], []⟩)
    {p : Place} {a : WeakReference} (held : s.held p = some a) :
    a.id ∈ s.pinned P ↔ s.isBound a = true := by
  have here := (Moment.held_atRest s p).trans held
  rw [pinning.exact]
  constructor
  · rintro ⟨q, b, there, named, bound⟩
    cases pinning.ownership.ids q p b a there here named
    cases there.symm.trans here
    exact bound
  · exact fun bound => ⟨p, a, here, rfl, bound⟩

namespace Session

/-- Reference `n`, which was `ref`, has let go of its old binding and has the binding `b` to `r`,
whose finalizer was taken in by collector `i`, which became `c`, or ran. -/
def rebound (s : Session) (i : Nat) (c : Collector) (n : Nat) (ref : WeakReference) (b : Binding)
    (r : ObjectRef) (ran : Bool) : Session :=
  ((s.disarm b.pins ref).arrive i c ref.id r ran b.affiliation).setRef n
    (some { ref with binding := some b })

section Rebound
variable (s : Session) (i n : Nat) (c : Collector) (ref : WeakReference) (b : Binding)
variable (r : ObjectRef) (ran : Bool)

theorem cell_rebound (d : Nat) : (s.rebound i c n ref b r ran).cell d =
    if d = s.cells.size then (if ran then .cleared else .bound r)
    else if ref.cell? = some d then .superseded else s.cell d := by
  have arrived : (s.rebound i c n ref b r ran).cell d =
      ((s.disarm b.pins ref).arrive i c ref.id r ran b.affiliation).cell d := rfl
  rw [arrived, cell_arrive, size_cells_disarm, cell_disarm]

theorem target?_rebound (fresh : b.cell = s.cells.size) :
    (s.rebound i c n ref b r ran).target? { ref with binding := some b } =
      if ran then none else some r := by
  refine (congrArg Cell.get? (s.cell_rebound i n c ref b r ran b.cell)).trans ?_
  rw [if_pos fresh]
  cases ran <;> rfl

theorem runs_rebound : (s.rebound i c n ref b r ran).runs =
    if ran then s.runs.push (.endBinding s.cells.size ref.id) else s.runs := by
  unfold rebound setRef arrive
  dsimp only
  rw [(s.sameButBindings_disarm b.pins ref).runs, size_cells_disarm]

theorem mem_pinned_rebound {h : HandleId} (other : h ≠ ref.id) (P : Nat) :
    h ∈ (s.rebound i c n ref b r ran).pinned P ↔ h ∈ s.pinned P := by
  have disarmed : h ∈ (s.disarm b.pins ref).pinned P ↔ h ∈ s.pinned P := by
    rw [mem_pinned_disarm]
    exact and_iff_left fun both => other both.2.2
  rw [← disarmed]
  cases ran with
  | true => exact Iff.rfl
  | false =>
    refine (mem_pinned_pin _ c.heap.pins P ref.id h).trans ?_
    exact or_iff_right fun both => other both.2.2

theorem collector?_rebound {d : Collector} (here : s.collector? i = some d) :
    (s.rebound i c n ref b r ran).collector? i = some c :=
  collector?_setCollector_self
    (((s.sameButBindings_disarm b.pins ref).collector? i).trans here) c

theorem held_rebound (there : s.ref? n = some ref) (p : Place) :
    (s.rebound i c n ref b r ran).held p =
      if p = .ref n then some { ref with binding := some b } else s.held p := by
  have disarmed := s.sameButBindings_disarm b.pins ref
  have there' : Moment.held ⟨s.disarm b.pins ref, none, [], []⟩ (.ref n) = some ref :=
    (disarmed.ref? n).trans there
  have held : Moment.held ⟨s.rebound i c n ref b r ran, none, [], []⟩ p = if p = .ref n then
      some { ref with binding := some b } else Moment.held ⟨s.disarm b.pins ref, none, [], []⟩ p :=
    held_arrive there' nofun p
  have same := Moment.held_congr (m := ⟨s, none, [], []⟩) (n := ⟨s.disarm b.pins ref, none, [], []⟩)
    disarmed.refs disarmed.maps rfl p
  rw [same, Moment.held_atRest] at held
  exact (Moment.held_atRest _ p).symm.trans held

end Rebound

section Plain
variable {s : Session} {i n : Nat} {c : Collector} {ref : WeakReference} {r : ObjectRef}

theorem perform_bind_plain (here : s.collector? i = some c) (plain : c.IsPlain)
    (sound : c.heap.Sound) (there : s.ref? n = some ref)
    (inside : ∀ b, ref.binding = some b → b.cell < s.cells.size)
    (takes : c.heap.kind? r ≠ some .immediate) :
    ∃ c', c'.IsPlain ∧ c'.heap.pins = c.heap.pins ∧
      c.TookIn c' r [] (if c.heap.isLive r then [.endBinding s.cells.size ref.id] else []) ∧
      s.perform (.bind i n r) = (s.rebound i c' n ref
        ⟨s.cells.size, c.heap.affiliationTo r, c.heap.runtime, c.heap.pins⟩ r (!c.heap.isLive r),
        .affiliation (c.heap.affiliationTo r)) := by
  have passes := plain.nextDirective
  have unchanged := plain.advance
  rw [perform_bind there]
  unfold Heap.affiliationTo Heap.isLive
  cases kind : c.heap.kind? r with
  | none =>
    have dead := Heap.kind?_eq_none_iff.mp kind
    rw [bind_due here passes (.reference n) inside dead, unchanged, dead]
    exact ⟨{ c with heap := c.heap.countRun 1 }, ⟨plain.script, plain.stash, plain.reach⟩, rfl,
      .none rfl (fun _ => rfl) fun _ => rfl, rfl⟩
  | some k =>
    obtain ⟨heap, a, kept, direct⟩ := Heap.define_live kind (fun same => takes (same ▸ kind))
      (.endBinding s.cells.size ref.id)
    obtain ⟨o, live, _⟩ := Option.map_eq_some_iff.mp kind
    have attached : (if some k = some ObjectKind.emittable then Affiliation.direct else .indirect) =
        a := by
      cases a with
      | direct => rw [direct.mp rfl, if_pos rfl]
      | indirect => exact if_neg fun same => nomatch direct.mpr (Option.some.inj same)
    rw [bind_kept here passes (.reference n) inside kept, unchanged, live, attached]
    exact ⟨{ c with heap }, ⟨plain.script, plain.stash, plain.reach⟩, (Heap.pins_of_kept kept).1,
      ⟨(List.append_nil _).symm, Heap.pendingOf_define_eq sound kept, Heap.object?_define kept⟩,
      rfl⟩

/-- What a session with one heap becomes when its reference `n`, once `ref`, is bound to `r`. -/
structure Rebinds (s s' : Session) (i : Nat) (c : Collector) (n : Nat) (ref : WeakReference)
    (r : ObjectRef) : Prop where
  /-- The reference is bound to a live target; to a dead one its binding is over. -/
  bound : ∃ ref', s'.ref? n = some ref' ∧ ref'.id = ref.id ∧
    ref'.affiliation? = some (c.heap.affiliationTo r) ∧
    s'.target? ref' = (if c.heap.isLive r then some r else none) ∧
    (s'.read i ref').2 = if c.heap.isReachable r then some r else none
  pinned : ref.id ∈ s'.pinned c.heap.pins ↔ c.heap.isLive r = true
  /-- One finalizer was defined. It is the last one that `r` has, or ran. -/
  took : ∃ c', s'.collector? i = some c' ∧
    c.TookIn c' r [] (if c.heap.isLive r then [.endBinding s.cells.size ref.id] else [])
  ran : s'.runs = if c.heap.isLive r then s.runs else s.runs.push (.endBinding s.cells.size ref.id)
  /-- All others stand where they stood, bound as they were, and keep their pins. -/
  others : ∀ p, p ≠ .ref n → s'.held p = s.held p
  cells : ∀ p a d, p ≠ .ref n → s.held p = some a → a.cell? = some d → s'.cell d = s.cell d
  pins : ∀ P h, h ≠ ref.id → (h ∈ s'.pinned P ↔ h ∈ s.pinned P)

theorem rebinds (here : s.collector? i = some c) (plain : c.IsPlain)
    (pinning : Pinning c.heap.pins ⟨s, none, [], []⟩) (there : s.ref? n = some ref)
    (takes : c.heap.kind? r ≠ some .immediate) :
    (s.perform (.bind i n r)).2 = .affiliation (c.heap.affiliationTo r) ∧
      s.Rebinds (s.perform (.bind i n r)).1 i c n ref r := by
  have ownership := pinning.ownership
  have mine := (Moment.held_atRest s (.ref n)).trans there
  have inside : ∀ b, ref.binding = some b → b.cell < s.cells.size := fun b binding =>
    ownership.inside _ ref b.cell mine (WeakReference.cell?_of_binding binding)
  have pinning' : Pinning c.heap.pins ⟨s.after [.bind i n r], none, [], []⟩ :=
    Session.pinning_run pinning (by simp [Op.isDisciplined])
  rw [after_cons, after_nil] at pinning'
  obtain ⟨c', plain', pins, took, performed⟩ :=
    perform_bind_plain here plain (ownership.heaps i c here) there inside takes
  rw [performed] at pinning' ⊢
  dsimp only at pinning' ⊢
  generalize new : Binding.mk s.cells.size (c.heap.affiliationTo r) c.heap.runtime c.heap.pins = b
    at pinning' ⊢
  have fresh : b.cell = s.cells.size := new ▸ rfl
  have held := s.held_rebound i n c' ref b r (!c.heap.isLive r) there
  have stands : (s.rebound i c' n ref b r (!c.heap.isLive r)).held (.ref n) = some _ :=
    (held (.ref n)).trans (if_pos rfl)
  have target : (s.rebound i c' n ref b r (!c.heap.isLive r)).target?
      { ref with binding := some b } = if c.heap.isLive r then some r else none := by
    rw [s.target?_rebound i n c' ref b r _ fresh]
    cases c.heap.isLive r <;> rfl
  have at_i := s.collector?_rebound i n c' ref b r (!c.heap.isLive r) here
  refine ⟨rfl, ?_⟩
  constructor
  case bound =>
    refine ⟨_, stands, rfl, new ▸ rfl, target, ?_⟩
    rw [answer_read at_i, target]
    cases live : c.heap.isLive r with
    | false =>
      rw [c.heap.isReachable_of_dead live]
      rfl
    | true =>
      rw [if_pos rfl, Option.filter_some, plain'.isReachable, took.isReachable]
  case pinned =>
    refine (pinning'.mem_pinned_iff stands).trans ((isBound_iff_target? _ _).trans ?_)
    rw [target]
    cases c.heap.isLive r <;> simp
  case took => exact ⟨c', at_i, took⟩
  case ran =>
    rw [runs_rebound]
    cases c.heap.isLive r <;> rfl
  case others => exact fun p other => (held p).trans (if_neg other)
  case cells =>
    intro p a d other stood own
    have stood := (Moment.held_atRest s p).trans stood
    have apart : ref.cell? ≠ some d := fun same =>
      other (ownership.own p (.ref n) a ref d stood mine own same)
    rw [cell_rebound, if_neg (Nat.ne_of_lt (ownership.inside p a d stood own)), if_neg apart]
  case pins => exact fun P h other => s.mem_pinned_rebound i n c' ref b r _ other P

theorem perform_bind_immediate (here : s.collector? i = some c) (plain : c.IsPlain)
    (there : s.ref? n = some ref) (kind : c.heap.kind? r = some .immediate) :
    (s.perform (.bind i n r)).2 = .failed (.notFinalizable "Immediate") ∧
      SameButReports s (s.perform (.bind i n r)).1 := by
  rw [perform_bind there, bind_immediate here plain.nextDirective (.reference n) kind,
    plain.advance,
    setCollector_self here]
  exact ⟨rfl, _, setRef_self (s := s.emit _) there⟩

end Plain

end Session

theorem NothingBound.boundKept {m : Moment} (nothingBound : NothingBound m) (i : Nat) :
    BoundKept i m where
  ownership := nothingBound.ownership
  apart j _ _ _ here := nomatch (nothingBound.gone j).symm.trans here
  runtimes j _ here := nomatch (nothingBound.gone j).symm.trans here
  issued p a _ held binding := nomatch (nothingBound.empty p a held).symm.trans binding
  plain _ here := nomatch (nothingBound.gone i).symm.trans here
  keptOnce _ _ _ _ _ here := nomatch (nothingBound.gone i).symm.trans here

theorem Session.one_heap {before later : List Op} (config : HeapConfig)
    (first : ∀ op ∈ before, op.isDisciplined = true)
    (then_on : ∀ op ∈ later, op.isDisciplined = true)
    (plain : ∀ op ∈ later, op.scripts 0 = false) {s : Session}
    (run : s = Session.after {} (before ++ .newHeap config :: later)) :
    ∃ c, s.collector? 0 = some c ∧ c.IsPlain ∧ Pinning c.heap.pins ⟨s, none, [], []⟩ := by
  have start : NothingBound ⟨{}, none, [], []⟩ := ⟨ownership_empty, rfl, fun p _ here =>
    nomatch (Moment.held_empty p).symm.trans here⟩
  have nothingBound := Session.nothingBound_run start first
  have opened := Move.newHeap ⟨Session.after {} before, none, [], []⟩ config
  have boundKept := Session.boundKept_run ((nothingBound.boundKept 0).move opened nofun) plain
  have pinning := Session.pinning_run (nothingBound.newHeap config) then_on
  have here : ((((Session.after {} before).newHeap config).1).collector? 0).isSome := by
    rw [Session.collector?_newHeap, if_pos nothingBound.collectors.symm]
    rfl
  have stays := Session.collector?_stays here (nothingBound.ownership.move opened)
    fun op (listed : op ∈ later) same => nomatch same ▸ then_on op listed
  rw [Session.after_append, Session.after_cons] at run
  change s = (((Session.after {} before).newHeap config).1).after later at run
  rw [← run] at boundKept pinning stays
  obtain ⟨c, here⟩ := Option.isSome_iff_exists.mp stays
  rw [← pinning.collectors 0 c here] at pinning
  exact ⟨c, here, boundKept.plain c here, pinning⟩

/-- A bind on the one heap fails exactly if the target is immediate. Otherwise the reference is
bound and pinned exactly if the target is live, whatever its state was. -/
theorem bind_goes_by_target {before later : List Op} (config : HeapConfig)
    (first : ∀ op ∈ before, op.isDisciplined = true)
    (then_on : ∀ op ∈ later, op.isDisciplined = true)
    (plain : ∀ op ∈ later, op.scripts 0 = false) {s : Session}
    (run : s = Session.after {} (before ++ .newHeap config :: later)) :
    ∃ c, s.collector? 0 = some c ∧ ∀ n ref r, s.ref? n = some ref →
      ((∃ e, (s.perform (.bind 0 n r)).2 = .failed e) ↔ c.heap.kind? r = some .immediate) ∧
      (c.heap.kind? r = some .immediate →
        (s.perform (.bind 0 n r)).2 = .failed (.notFinalizable "Immediate") ∧
          Session.SameButReports s (s.perform (.bind 0 n r)).1) ∧
      (c.heap.kind? r ≠ some .immediate →
        (s.perform (.bind 0 n r)).2 = .affiliation (c.heap.affiliationTo r) ∧
          s.Rebinds (s.perform (.bind 0 n r)).1 0 c n ref r) := by
  obtain ⟨c, here, plain, pinning⟩ := Session.one_heap config first then_on plain run
  refine ⟨c, here, fun n ref r there => ⟨⟨?_, fun kind => ?_⟩, ?_, ?_⟩⟩
  · rintro ⟨e, failed⟩
    by_contra takes
    rw [(Session.rebinds here plain pinning there takes).1] at failed
    cases failed
  · exact ⟨_, (Session.perform_bind_immediate here plain there kind).1⟩
  · exact Session.perform_bind_immediate here plain there
  · exact Session.rebinds here plain pinning there

/-- A reference that is bound to a live object is bound to one that is gone: its pin is gone too. -/
theorem rebind_to_dead_target :
    let later : List Op := [.alloc 0 .plain, .alloc 0 .emittable, .newRefTo 0 ⟨0, 0⟩,
      .release 0 ⟨1, 0⟩]
    let s := Session.after {} ([] ++ .newHeap {} :: later)
    ∃ c, s.collector? 0 = some c ∧ (⟨1⟩ : HandleId) ∈ s.pinned c.heap.pins ∧
      (s.perform (.bind 0 0 ⟨1, 0⟩)).2 = .affiliation .indirect ∧
      (⟨1⟩ : HandleId) ∉ (s.perform (.bind 0 0 ⟨1, 0⟩)).1.pinned c.heap.pins := by
  intro later s
  obtain ⟨c, here, binds⟩ := bind_goes_by_target {} (show ∀ op ∈ [], _ by decide)
    (show ∀ op ∈ later, _ by decide) (show ∀ op ∈ later, _ by decide) (s := s) rfl
  have there : s.ref? 0 = some ⟨⟨1⟩, some ⟨0, .indirect, ⟨1⟩, 0⟩⟩ := by decide +kernel
  have state : (s.collector? 0).any fun c => c.heap.kind? ⟨1, 0⟩ = none ∧
      c.heap.isLive ⟨1, 0⟩ = false ∧ (⟨1⟩ : HandleId) ∈ s.pinned c.heap.pins := by decide +kernel
  rw [here] at state
  obtain ⟨gone, dead, pinned⟩ := of_decide_eq_true state
  obtain ⟨answer, rebinds⟩ := (binds 0 _ ⟨1, 0⟩ there).2.2 (gone ▸ nofun)
  refine ⟨c, here, pinned, ?_, fun still => ?_⟩
  · rw [answer, Heap.affiliationTo, gone]
    rfl
  · rw [rebinds.pinned.mp still] at dead
    cases dead

end WeakRefs
