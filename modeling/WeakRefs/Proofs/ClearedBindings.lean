import WeakRefs.Proofs.FullCollection
import WeakRefs.Proofs.OneHeap

/-!
# What a reclamation clears

A reclamation runs all that is pending on the objects that go, in one batch. The batch ends exactly
the bindings to these objects, each with its pin and one event.
-/

namespace WeakRefs

/-- Whether an action only looks at references, maps and pins. -/
def Action.observes : Action → Bool
  | isAlive _ | pinCount _ | isBound _ | mapSize _ => true
  | _ => false

/-- Whether a user finalizer only looks at references, maps and pins. -/
def Finalizer.observes : Finalizer → Bool
  | user _ actions => actions.all Action.observes
  | _ => true

namespace Session
variable {s s' s'' : Session} {roots : Nat} {focus : Focus}

theorem act_of_observes {a : Action} (looks : a.observes = true) : (s.act focus roots a).1 = s := by
  cases a with
  | isAlive x => rfl
  | pinCount pins => rfl
  | isBound r => exact onRef_induction (P := fun t => t = s) rfl fun _ _ => rfl
  | mapSize m => exact onMap_induction (P := fun t => t = s) rfl fun _ _ => rfl
  | _ => cases looks

theorem actAll_of_observes {actions : List Action} (look : actions.all Action.observes = true) :
    (s.actAll focus roots actions).1 = s := by
  induction actions with
  | nil => rfl
  | cons a rest ih =>
    rw [List.all_cons, Bool.and_eq_true] at look
    change ((s.act focus roots a).1.actAll focus roots rest).1 = s
    rw [act_of_observes look.1]
    exact ih look.2

theorem journal_endBinding (s : Session) (roots c : Nat) (handle : HandleId) :
    (s.endBinding roots c handle).journal = if (s.cell c).isBound then
      s.journal.push (.clearedByFinalizer handle) else s.journal := by
  have pays : (s.cell c).fire.2.releasesPin = (s.cell c).isBound := by
    cases s.cell c <;> rfl
  unfold endBinding
  dsimp only
  rw [pays]
  split <;> rfl

def EndsBy (s : Session) (batch : List Finalizer) (d : Nat) (h : HandleId) : Prop :=
  .endBinding d h ∈ batch ∧ (s.cell d).isBound = true

/-- In a batch each cell that is bound goes with one handle, and each handle with one such cell. -/
structure Matched (s : Session) (batch : List Finalizer) : Prop where
  agree : ∀ d h h', s.EndsBy batch d h → s.EndsBy batch d h' → h = h'
  single : ∀ d d' h, s.EndsBy batch d h → s.EndsBy batch d' h → d = d'

/-- A batch was delivered: the bindings of its cells are over, each with its pin on `roots`, and
each is reported once. All else stands. -/
structure Clears (s s' : Session) (roots : Nat) (batch : List Finalizer) : Prop where
  held : ∀ p, s'.held p = s.held p
  cell : ∀ d x, s'.cell d = .bound x ↔ s.cell d = .bound x ∧ ∀ h, .endBinding d h ∉ batch
  pinned : ∀ P h, h ∈ s'.pinned P ↔
    h ∈ s.pinned P ∧ ¬ (P = roots ∧ ∃ d, s.EndsBy batch d h)
  told : ∃ new : List Event, s'.journal = s.journal ++ new.toArray ∧ ∀ h,
    ((∃ d, s.EndsBy batch d h) → new.count (.clearedByFinalizer h) = 1) ∧
    ((¬ ∃ d, s.EndsBy batch d h) → .clearedByFinalizer h ∉ new)

namespace Clears

theorem nil (s : Session) (roots : Nat) : Clears s s roots [] where
  held _ := rfl
  cell d x := by simp
  pinned P h := by simp [EndsBy]
  told := ⟨[], Array.append_empty.symm, fun h => by simp [EndsBy]⟩

theorem idle {f : Finalizer} (other : ∀ d h, f ≠ .endBinding d h) (held : ∀ p, s'.held p = s.held p)
    (same : s'.cells = s.cells ∧ s'.pinSets = s.pinSets ∧ s'.journal = s.journal) :
    Clears s s' roots [f] := by
  obtain ⟨cells, pinSets, journal⟩ := same
  have none_named (d : Nat) (h : HandleId) : .endBinding d h ∉ [f] :=
    fun listed => other d h (List.mem_singleton.mp listed).symm
  have nobody (h : HandleId) : ¬ ∃ d, s.EndsBy [f] d h :=
    fun ⟨d, listed, _⟩ => none_named d h listed
  refine ⟨held, fun d x => ?_, fun P h => ?_, [], ?_, fun h => ⟨?_, ?_⟩⟩
  · rw [cell_congr cells]
    exact (and_iff_left (none_named d)).symm
  · rw [pinned_congr pinSets]
    exact (and_iff_left fun ended => nobody h ended.2).symm
  · rw [journal]
    exact Array.append_empty.symm
  · exact fun ends => absurd ends (nobody h)
  · exact fun _ => List.not_mem_nil

theorem fire (s : Session) (focus : Focus) (roots c : Nat) (handle : HandleId) :
    Clears s (s.deliver focus roots (.endBinding c handle)) roots [.endBinding c handle] := by
  change Clears s ((s.logRun (.endBinding c handle)).endBinding roots c handle) roots _
  have same := (s.logRun (.endBinding c handle)).sameButBindings_endBinding roots c handle
  have ends (d : Nat) (h : HandleId) : s.EndsBy [.endBinding c handle] d h ↔
      (d = c ∧ h = handle) ∧ (s.cell d).isBound = true := by
    unfold EndsBy
    rw [List.mem_singleton, Finalizer.endBinding.injEq]
  have named (h : HandleId) : (∃ d, s.EndsBy [.endBinding c handle] d h) ↔
      h = handle ∧ (s.cell c).isBound = true := by
    simp only [ends]
    constructor
    · rintro ⟨d, ⟨rfl, rfl⟩, bound⟩
      exact ⟨rfl, bound⟩
    · rintro ⟨rfl, bound⟩
      exact ⟨c, ⟨rfl, rfl⟩, bound⟩
  refine ⟨fun p => held_congr same.refs same.maps p, fun d x => ?_, fun P h => ?_, ?_⟩
  · rw [cell_endBinding, cell_logRun, cell_logRun]
    split
    · rename_i this_one
      subst this_one
      constructor
      · intro bound
        have past := (s.cell d).isBound_fire
        rw [bound] at past
        cases past
      · exact fun spared => absurd (List.mem_singleton.mpr rfl) (spared.2 handle)
    · rename_i other
      refine (and_iff_left fun h listed => other ?_).symm
      cases List.mem_singleton.mp listed
      rfl
  · rw [mem_pinned_endBinding, cell_logRun, pinned_logRun, named]
    refine and_congr_right fun _ => not_congr ?_
    constructor
    · exact fun ⟨bound, here, mine⟩ => ⟨here, mine, bound⟩
    · exact fun ⟨here, mine, bound⟩ => ⟨bound, here, mine⟩
  · rw [journal_endBinding, cell_logRun]
    split
    · rename_i bound
      refine ⟨[.clearedByFinalizer handle], rfl,
        fun h => ⟨fun ended => ?_, fun spared listed => ?_⟩⟩
      · rw [((named h).mp ended).1]
        exact List.count_singleton_self
      · cases List.mem_singleton.mp listed
        exact spared ((named handle).mpr ⟨rfl, bound⟩)
    · rename_i past
      refine ⟨[], Array.append_empty.symm, fun h => ⟨fun ended => ?_, fun _ => List.not_mem_nil⟩⟩
      exact absurd ((named h).mp ended).2 past

theorem cons {f : Finalizer} {rest : List Finalizer} (matched : s.Matched (f :: rest))
    (first : Clears s s' roots [f]) (others : Clears s' s'' roots rest) :
    Clears s s'' roots (f :: rest) := by
  have listed (d : Nat) (h : HandleId) :
      .endBinding d h ∈ f :: rest ↔ .endBinding d h ∈ [f] ∨ .endBinding d h ∈ rest := by
    rw [List.mem_cons, List.mem_singleton]
  have later (d : Nat) (h : HandleId) : s'.EndsBy rest d h ↔
      s.EndsBy rest d h ∧ ∀ h, .endBinding d h ∉ [f] := by
    unfold EndsBy
    rw [Cell.isBound_iff, Cell.isBound_iff]
    simp only [first.cell]
    grind
  have early (d : Nat) (h : HandleId) (now : s.EndsBy [f] d h) : s.EndsBy (f :: rest) d h :=
    ⟨(listed d h).mpr (Or.inl now.1), now.2⟩
  have late (d : Nat) (h : HandleId) (then_on : s.EndsBy rest d h) : s.EndsBy (f :: rest) d h :=
    ⟨(listed d h).mpr (Or.inr then_on.1), then_on.2⟩
  have split_up (h : HandleId) : (∃ d, s.EndsBy (f :: rest) d h) ↔
      (∃ d, s.EndsBy [f] d h) ∨ ∃ d, s'.EndsBy rest d h := by
    constructor
    · rintro ⟨d, ends⟩
      by_cases now : ∃ h', .endBinding d h' ∈ [f]
      · obtain ⟨h', now⟩ := now
        have same := matched.agree d h h' ends (early d h' ⟨now, ends.2⟩)
        exact Or.inl ⟨d, same ▸ now, ends.2⟩
      · rw [not_exists] at now
        have then_on := ((listed d h).mp ends.1).resolve_left (now h)
        exact Or.inr ⟨d, (later d h).mpr ⟨⟨then_on, ends.2⟩, now⟩⟩
    · rintro (⟨d, now⟩ | ⟨d, then_on⟩)
      · exact ⟨d, early d h now⟩
      · exact ⟨d, late d h ((later d h).mp then_on).1⟩
  have apart (h : HandleId) (now : ∃ d, s.EndsBy [f] d h) : ¬ ∃ d, s'.EndsBy rest d h := by
    rintro ⟨d', then_on⟩
    obtain ⟨d, now⟩ := now
    obtain ⟨then_on, spared⟩ := (later d' h).mp then_on
    cases matched.single d d' h (early d h now) (late d' h then_on)
    exact spared h now.1
  obtain ⟨new, told, counts⟩ := first.told
  obtain ⟨more, told', counts'⟩ := others.told
  refine ⟨fun p => (others.held p).trans (first.held p), fun d x => ?_, fun P h => ?_, new ++ more,
    ?_, fun h => ⟨fun ended => ?_, fun spared => ?_⟩⟩
  · rw [others.cell, first.cell, and_assoc]
    simp only [listed, not_or, forall_and]
  · rw [others.pinned, first.pinned, split_up]
    grind
  · rw [told', told]
    simp
  · rw [List.count_append]
    rcases (split_up h).mp ended with now | then_on
    · rw [(counts h).1 now, List.count_eq_zero.mpr ((counts' h).2 (apart h now))]
    · have spared := (counts h).2 fun now => apart h now then_on
      rw [List.count_eq_zero.mpr spared, (counts' h).1 then_on]
  · rw [split_up, not_or] at spared
    rw [List.mem_append, not_or]
    exact ⟨(counts h).2 spared.1, (counts' h).2 spared.2⟩

theorem deliver {f : Finalizer} (observes : f.observes = true) (s : Session) (focus : Focus)
    (roots : Nat) : Clears s (s.deliver focus roots f) roots [f] := by
  cases f with
  | endBinding c handle => exact fire s focus roots c handle
  | report m key handle =>
    exact idle (fun _ _ => nofun) ((s.logRun _).held_report m key handle) ⟨rfl, rfl, rfl⟩
  | user label actions =>
    have same : ((s.logRun (.user label actions)).actAll focus roots actions).1 =
        s.logRun (.user label actions) := actAll_of_observes observes
    unfold Session.deliver carryOut
    dsimp only
    rw [same]
    exact idle (fun _ _ => nofun) (fun _ => rfl) ⟨rfl, rfl, rfl⟩

theorem deliverAll {batch : List Finalizer} (observe : ∀ f ∈ batch, f.observes = true)
    (matched : s.Matched batch) (focus : Focus) (roots : Nat) :
    Clears s (s.deliverAll focus roots batch) roots batch := by
  induction batch generalizing s with
  | nil => exact nil s roots
  | cons f rest ih =>
    have first := deliver (observe f List.mem_cons_self) s focus roots
    have ends (d : Nat) (h : HandleId) (late : (s.deliver focus roots f).EndsBy rest d h) :
        s.EndsBy (f :: rest) d h := by
      obtain ⟨t, bound⟩ := (Cell.isBound_iff _).mp late.2
      have before := ((first.cell d t).mp bound).1
      exact ⟨List.mem_cons_of_mem _ late.1, (Cell.isBound_iff _).mpr ⟨t, before⟩⟩
    refine first.cons matched (ih (fun g later => observe g (List.mem_cons_of_mem _ later))
      ⟨?_, ?_⟩)
    · exact fun d h h' one other => matched.agree d h h' (ends d h one) (ends d h' other)
    · exact fun d d' h one other => matched.single d d' h (ends d h one) (ends d' h other)

theorem within {batch : List Finalizer} {t t' : Session} (clears : Clears s s' roots batch)
    (before : s.refs = t.refs ∧ s.maps = t.maps ∧ s.cells = t.cells ∧ s.pinSets = t.pinSets)
    (after : t'.refs = s'.refs ∧ t'.maps = s'.maps ∧ t'.cells = s'.cells ∧ t'.pinSets = s'.pinSets)
    (first last : List Event) (quiet : ∀ h, .clearedByFinalizer h ∉ first ++ last)
    (journal : s.journal = t.journal ++ first.toArray)
    (journal' : t'.journal = s'.journal ++ last.toArray) : Clears t t' roots batch := by
  obtain ⟨refs, maps, cells, pinSets⟩ := before
  obtain ⟨refs', maps', cells', pinSets'⟩ := after
  have ends (d : Nat) (h : HandleId) : t.EndsBy batch d h ↔ s.EndsBy batch d h := by
    unfold EndsBy
    rw [cell_congr cells]
  obtain ⟨new, told, counts⟩ := clears.told
  refine ⟨fun p => ?_, fun d x => ?_, fun P h => ?_, first ++ (new ++ last), ?_, fun h => ?_⟩
  · exact (held_congr refs' maps' p).trans ((clears.held p).trans (held_congr refs maps p))
  · rw [cell_congr cells', clears.cell, cell_congr cells]
  · rw [pinned_congr pinSets', clears.pinned, pinned_congr pinSets]
    simp only [ends]
  · rw [journal', told, journal]
    simp
  · have silent := quiet h
    rw [List.mem_append, not_or] at silent
    simp only [ends]
    rw [List.mem_append, List.mem_append, List.count_append, List.count_append,
      List.count_eq_zero.mpr silent.1, List.count_eq_zero.mpr silent.2, Nat.zero_add, Nat.add_zero]
    refine ⟨(counts h).1, fun spared listed => ?_⟩
    rcases listed with early | now | late
    · exact silent.1 early
    · exact (counts h).2 spared now
    · exact silent.2 late

end Clears

end Session

theorem Ownership.matched {s : Session} {hand : Option WeakReference} {running : List Action}
    {flight : List Finalizer} (ownership : Ownership ⟨s, hand, running, flight⟩) :
    s.Matched flight := by
  have holds {d : Nat} {h : HandleId} (ends : s.EndsBy flight d h) : ∃ p a,
      Moment.held ⟨s, hand, running, flight⟩ p = some a ∧ a.cell? = some d ∧ a.id = h := by
    obtain ⟨t, bound⟩ := (Cell.isBound_iff _).mp ends.2
    obtain ⟨p, a, held, mine⟩ := ownership.holder d t bound
    exact ⟨p, a, held, mine, (ownership.waits d h (Or.inr ends.1)).2 p a held mine⟩
  constructor
  · intro d h h' one other
    obtain ⟨p, a, held, mine, named⟩ := holds one
    exact named.symm.trans ((ownership.waits d h' (Or.inr other.1)).2 p a held mine)
  · intro d d' h one other
    obtain ⟨p, a, held, mine, named⟩ := holds one
    obtain ⟨p', a', held', mine', named'⟩ := holds other
    cases ownership.ids p p' a a' held held' (named.trans named'.symm)
    cases held.symm.trans held'
    exact Option.some.inj (mine.symm.trans mine')

namespace Session

theorem settle_eq (s : Session) {i : Nat} {c : Collector} (here : s.collector? i = some c)
    (focus : Focus) (outcome : Heap Finalizer × List (Reclaimed Finalizer)) :
    s.settle focus i outcome = Session.modifyHeap (Session.deliverAll
      ((s.setCollector i { c with heap := outcome.1 }).emitAll (reclaimedEvents outcome.2))
      focus outcome.1.pins (outcome.2.flatMap Reclaimed.due)) i
      (·.countRun (outcome.2.flatMap Reclaimed.due).length) := by
  unfold settle deliverDue
  rw [modifyHeap_eq here]
  rfl

/-- The object is in the heap before and not after. -/
def Loses (s s' : Session) (x : ObjectRef) : Prop :=
  s.isLiveIn 0 x = true ∧ s'.isLiveIn 0 x = false

/-- A reference with this handle was bound to an object that went. -/
def LosesTargetOf (s s' : Session) (h : HandleId) : Prop :=
  ∃ p ref x, s.held p = some ref ∧ ref.id = h ∧ s.target? ref = some x ∧ s.Loses s' x

/-- What a reclamation by collector `c` comes to for references, entries, pins and events. -/
structure ClearsLost (c : Collector) (s s' : Session) : Prop where
  /-- References and entries stay where they are. -/
  held : ∀ p, s'.held p = s.held p
  /-- They are bound to what they were bound to, unless it went. -/
  target : ∀ p ref x, s.held p = some ref →
    (s'.target? ref = some x ↔ s.target? ref = some x ∧ ¬ s.Loses s' x)
  /-- The handles of those that were bound to what went lose their pins, and no others. -/
  pinned : ∀ P h, h ∈ s'.pinned P ↔ h ∈ s.pinned P ∧ ¬ (P = c.heap.pins ∧ s.LosesTargetOf s' h)
  paid : ∀ h, s.LosesTargetOf s' h → h ∈ s.pinned c.heap.pins
  /-- Each of them is reported once as cleared by its finalizer, and no other is. -/
  told : ∃ new : List Event, s'.journal = s.journal ++ new.toArray ∧ ∀ h,
    (s.LosesTargetOf s' h → new.count (.clearedByFinalizer h) = 1) ∧
    (¬ s.LosesTargetOf s' h → .clearedByFinalizer h ∉ new)
  /-- All that was pending on what went has run, also what was left there by former bindings. -/
  ran : ∃ batch : List Finalizer, s'.runs = s.runs ++ batch.toArray ∧ ∀ f, f ∈ batch ↔
    ∃ x, s.Loses s' x ∧ f ∈ c.heap.pendingOf x

end Session

namespace OnlyHeap
variable {c : Collector} {s : Session} (onlyHeap : OnlyHeap c s)
include onlyHeap

theorem endsBy_iff {outcome : Heap Finalizer × List (Reclaimed Finalizer)}
    (reclaims : c.heap.Reclaims outcome) (d : Nat) (h : HandleId) :
    s.EndsBy (outcome.2.flatMap Reclaimed.due) d h ↔ ∃ p ref x, s.held p = some ref ∧ ref.id = h ∧
      ref.cell? = some d ∧ s.cell d = .bound x ∧ outcome.1.object? x = none := by
  constructor
  · rintro ⟨due, bound⟩
    obtain ⟨x, bound⟩ := (Cell.isBound_iff _).mp bound
    obtain ⟨p, ref, there, mine⟩ := onlyHeap.ownership.holder d x bound
    have held := (Moment.held_atRest s p).symm.trans there
    obtain ⟨q, gone, kept⟩ := (reclaims.mem_due _).mp due
    have named := (onlyHeap.ownership.waits d h (Or.inl ⟨0, c, onlyHeap.here, Or.inr ⟨q, kept⟩⟩)).2
      p ref there mine
    obtain ⟨b, binding, _, _, keptOnce⟩ :=
      onlyHeap.keptOnce held ((s.target?_eq_some_iff ref).mpr ⟨d, mine, bound⟩)
    cases (WeakReference.cell?_of_binding binding).symm.trans mine
    subst named
    have place := keptOnce.only q kept
    exact ⟨p, ref, x, held, rfl, mine, bound, place ▸ gone⟩
  · rintro ⟨p, ref, x, held, rfl, mine, bound, gone⟩
    obtain ⟨b, binding, _, _, keptOnce⟩ :=
      onlyHeap.keptOnce held ((s.target?_eq_some_iff ref).mpr ⟨d, mine, bound⟩)
    cases (WeakReference.cell?_of_binding binding).symm.trans mine
    exact ⟨(reclaims.mem_due _).mpr ⟨x, gone, keptOnce.mem⟩, (Cell.isBound_iff _).mpr ⟨x, bound⟩⟩

theorem isLive_of_target {p : Place} {ref : WeakReference} (held : s.held p = some ref)
    {x : ObjectRef} (target : s.target? ref = some x) : s.isLiveIn 0 x = true := by
  obtain ⟨b, _, _, _, keptOnce⟩ := onlyHeap.keptOnce held target
  have live := keptOnce.live
  rw [Session.isLiveIn_eq onlyHeap.here]
  rw [Heap.kind?, Option.map_eq_some_iff] at live
  obtain ⟨o, there, _⟩ := live
  exact Option.isSome_of_eq_some there

theorem clearsLost {s' : Session} {outcome : Heap Finalizer × List (Reclaimed Finalizer)}
    (reclaims : c.heap.Reclaims outcome) (live : ∀ x, s'.isLiveIn 0 x = outcome.1.isLive x)
    (clears : s.Clears s' c.heap.pins (outcome.2.flatMap Reclaimed.due))
    (runs : s'.runs = s.runs ++ (outcome.2.flatMap Reclaimed.due).toArray) :
    Session.ClearsLost c s s' := by
  have loses (x : ObjectRef) :
      s.Loses s' x ↔ s.isLiveIn 0 x = true ∧ outcome.1.object? x = none := by
    unfold Session.Loses
    rw [live, Heap.isLive, Option.isSome_eq_false_iff, Option.isNone_iff_eq_none]
  have losesTarget (h : HandleId) :
      s.LosesTargetOf s' h ↔ ∃ d, s.EndsBy (outcome.2.flatMap Reclaimed.due) d h := by
    unfold Session.LosesTargetOf
    simp only [loses, onlyHeap.endsBy_iff reclaims]
    constructor
    · rintro ⟨p, ref, x, held, named, target, _, gone⟩
      obtain ⟨d, mine, bound⟩ := (s.target?_eq_some_iff ref).mp target
      exact ⟨d, p, ref, x, held, named, mine, bound, gone⟩
    · rintro ⟨d, p, ref, x, held, named, mine, bound, gone⟩
      have target := (s.target?_eq_some_iff ref).mpr ⟨d, mine, bound⟩
      exact ⟨p, ref, x, held, named, target, onlyHeap.isLive_of_target held target, gone⟩
  have ends (p : Place) (ref : WeakReference) (d : Nat) (x : ObjectRef) (held : s.held p = some ref)
      (mine : ref.cell? = some d) (bound : s.cell d = .bound x) :
      (∀ h, .endBinding d h ∉ outcome.2.flatMap Reclaimed.due) ↔ ¬ s.Loses s' x := by
    have target := (s.target?_eq_some_iff ref).mpr ⟨d, mine, bound⟩
    rw [← not_exists, not_iff_not, loses]
    constructor
    · rintro ⟨h, listed⟩
      obtain ⟨_, _, y, _, _, _, bound', gone⟩ := (onlyHeap.endsBy_iff reclaims d h).mp
        ⟨listed, (Cell.isBound_iff _).mpr ⟨x, bound⟩⟩
      cases bound.symm.trans bound'
      exact ⟨onlyHeap.isLive_of_target held target, gone⟩
    · rintro ⟨_, gone⟩
      have ended := (onlyHeap.endsBy_iff reclaims d ref.id).mpr
        ⟨p, ref, x, held, rfl, mine, bound, gone⟩
      exact ⟨ref.id, ended.1⟩
  refine ⟨clears.held, fun p ref x held => ?_, fun P h => ?_, fun h lost => ?_, ?_,
    _, runs, fun f => ?_⟩
  · rw [s'.target?_eq_some_iff, s.target?_eq_some_iff, ← exists_and_right]
    refine exists_congr fun d => ?_
    rw [clears.cell, and_assoc]
    refine and_congr_right fun mine => and_congr_right fun bound => ?_
    exact ends p ref d x held mine bound
  · rw [losesTarget]
    exact clears.pinned P h
  · obtain ⟨p, ref, x, held, named, target, _⟩ := lost
    exact (onlyHeap.mem_pinned h).mpr
      ⟨p, ref, held, named, (s.isBound_iff_target? ref).mpr ⟨x, target⟩⟩
  · simp only [losesTarget]
    exact clears.told
  · rw [reclaims.mem_due]
    constructor
    · rintro ⟨q, gone, kept⟩
      obtain ⟨o, there⟩ := c.heap.live_of_mem_pendingOf onlyHeap.sound kept
      have live : s.isLiveIn 0 q = true :=
        (Session.isLiveIn_eq onlyHeap.here q).trans (Option.isSome_of_eq_some there)
      exact ⟨q, (loses q).mpr ⟨live, gone⟩, kept⟩
    · rintro ⟨q, lost, kept⟩
      exact ⟨q, ((loses q).mp lost).2, kept⟩

section Steps
variable (observe : ∀ q, ∀ f ∈ c.heap.pendingOf q, f.observes = true)
include observe

theorem settle_clears {outcome : Heap Finalizer × List (Reclaimed Finalizer)}
    (reclamation : c.heap.Reclamation outcome) (focus : Focus) :
    s.Clears (s.settle focus 0 outcome) c.heap.pins (outcome.2.flatMap Reclaimed.due) := by
  have ownership := onlyHeap.ownership.move
    (Move.reclaim ⟨s, none, [], []⟩ onlyHeap.here rfl rfl reclamation)
  have observing (f : Finalizer) (due : f ∈ outcome.2.flatMap Reclaimed.due) :
      f.observes = true := by
    obtain ⟨q, _, kept⟩ := ((Heap.reclaims onlyHeap.sound reclamation).mem_due f).mp due
    exact observe q f kept
  have clears := Session.Clears.deliverAll observing ownership.matched focus outcome.1.pins
  rw [(Heap.same_reclamation reclamation).1] at clears
  rw [s.settle_eq onlyHeap.here, (Heap.same_reclamation reclamation).1]
  refine clears.within ?_ ⟨rfl, rfl, rfl, rfl⟩ (Session.reclaimedEvents outcome.2) []
    (fun h => ?_) ?_ Array.append_empty.symm
  · rw [Session.emitAll_eq]
    exact ⟨rfl, rfl, rfl, rfl⟩
  · simp [Session.reclaimedEvents]
  · rw [Session.emitAll_eq]
    rfl

theorem release_clearsLost (obj : ObjectRef) :
    Session.ClearsLost c s (s.perform (.release 0 obj)).1 := by
  have reclamation : c.heap.Reclamation (c.heap.release obj) := .release obj
  have there := Session.collector?_settle onlyHeap.here .idle (c.heap.release obj)
  have released : (s.perform (.release 0 obj)).1 = s.settle .idle 0 (c.heap.release obj) := by
    change s.releaseRoot 0 obj = _
    unfold Session.releaseRoot
    rw [onlyHeap.here]
  rw [released]
  exact onlyHeap.clearsLost (Heap.reclaims onlyHeap.sound reclamation) (Session.isLiveIn_eq there)
    (onlyHeap.settle_clears observe reclamation .idle) (s.runs_settle .idle 0 _)

theorem collect_clearsLost : Session.ClearsLost c s (s.perform (.collect 0)).1 := by
  have there := Session.collector?_collect onlyHeap.here .idle
  have settled := onlyHeap.settle_clears observe .sweep .idle
  have collected : (s.perform (.collect 0)).1 =
      ((s.settle .idle 0 c.heap.sweep).modifyHeap 0 Heap.countCollection).emit
        (.collected none c.heap.sweep.2.length c.heap.sweep.1.liveCount) := by
    change (s.collect .idle 0).1 = _
    unfold Session.collect
    rw [onlyHeap.here]
  have ran := s.runs_settle .idle 0 c.heap.sweep
  refine onlyHeap.clearsLost (Heap.reclaims_sweep onlyHeap.sound) (Session.isLiveIn_eq there) ?_ ?_
  all_goals
    rw [collected]
    generalize s.settle .idle 0 c.heap.sweep = t at settled ran ⊢
  · exact settled.within ⟨rfl, rfl, rfl, rfl⟩ ⟨rfl, rfl, rfl, rfl⟩ []
      [.collected none c.heap.sweep.2.length c.heap.sweep.1.liveCount] (by simp)
      Array.append_empty.symm Array.push_eq_append
  · exact ran

end Steps

end OnlyHeap

def Observing (m : Moment) : Prop := ∀ f, m.Awaits f → f.observes = true

theorem Observing.run {s : Session} (observing : Observing ⟨s, none, [], []⟩)
    (ownership : Ownership ⟨s, none, [], []⟩) {ops : List Op}
    (defines : ∀ op ∈ ops, ∀ f, op.defines? = some f → f.observes = true) :
    Observing ⟨s.after ops, none, [], []⟩ := by
  refine Session.after_keeps ownership (fun op listed _ _ _ _ allowed ownership move observing =>
    ?_)
    observing
  intro f waiting
  rcases move.awaits ownership.heaps waiting with before | defined | ⟨_, _, rfl⟩
  · exact observing f before
  · cases allowed with
    | report key handle works =>
      cases defined
      rfl
    | user brought => exact defined ▸ defines op listed _ brought
    | _ => cases defined
  · rfl

theorem NothingBound.observing {s : Session} (nothingBound : NothingBound ⟨s, none, [], []⟩) :
    Observing ⟨s, none, [], []⟩ := by
  rintro f (⟨i, c, here, _⟩ | flies)
  · exact nomatch (nothingBound.gone i).symm.trans here
  · cases flies

/-- After a release or a collection exactly those are not bound any more whose targets went. They
have lost their pins, and each is reported once as cleared by its finalizer. -/
theorem reclamation_clears_lost_bindings {before later : List Op} (config : HeapConfig)
    (first : ∀ op ∈ before, op.isDisciplined = true)
    (then_on : ∀ op ∈ later, op.isDisciplined = true)
    (plain : ∀ op ∈ later, op.scripts 0 = false)
    (defines : ∀ op ∈ later, ∀ f, op.defines? = some f → f.observes = true) {s : Session}
    (run : s = Session.after {} (before ++ .newHeap config :: later)) :
    ∃ c, s.collector? 0 = some c ∧
      (∀ obj, Session.ClearsLost c s (s.perform (.release 0 obj)).1) ∧
      Session.ClearsLost c s (s.perform (.collect 0)).1 := by
  have start : NothingBound ⟨{}, none, [], []⟩ := ⟨ownership_empty, rfl, fun p _ here =>
    nomatch (Moment.held_empty p).symm.trans here⟩
  have nothingBound := Session.nothingBound_run start first
  obtain ⟨c, onlyHeap⟩ := Session.onlyHeap config first then_on plain run
  have observing : Observing ⟨s, none, [], []⟩ := by
    rw [run, Session.after_append]
    refine nothingBound.observing.run nothingBound.ownership fun op listed => ?_
    rcases List.mem_cons.mp listed with rfl | later
    · exact fun f none_here => nomatch none_here
    · exact defines op later
  have observe (q : ObjectRef) (f : Finalizer) (kept : f ∈ c.heap.pendingOf q) :
      f.observes = true := observing f (Or.inl ⟨0, c, onlyHeap.here, Or.inr ⟨q, kept⟩⟩)
  exact ⟨c, onlyHeap.here, onlyHeap.release_clearsLost observe, onlyHeap.collect_clearsLost observe⟩

/-- Two references and an entry were bound to one object, and the second has been bound elsewhere
since. -/
theorem collection_after_rebind : ∃ s c, s = Session.after {} ([] ++ .newHeap {} ::
      [.alloc 0 .plain, .alloc 0 .emittable, .newRefTo 0 ⟨0, 0⟩, .newRefTo 0 ⟨0, 0⟩, .bind 0 1
        ⟨1, 0⟩,
        .newMap, .mapInsert 0 0 "key" ⟨0, 0⟩, .define 0 ⟨0, 0⟩ "watch" [.isBound 0],
        .release 0 ⟨0, 0⟩]) ∧
    s.collector? 0 = some c ∧ Session.ClearsLost c s (s.perform (.collect 0)).1 ∧
    (s.perform (.collect 0)).1.runs = #[.endBinding 0 ⟨1⟩, .endBinding 1 ⟨2⟩, .endBinding 3 ⟨3⟩,
      .report 0 "key" ⟨3⟩, .user "watch" [.isBound 0]] ∧
    ⟨1⟩ ∉ (s.perform (.collect 0)).1.pinned 0 ∧ ⟨2⟩ ∈ (s.perform (.collect 0)).1.pinned 0 ∧
    ⟨3⟩ ∉ (s.perform (.collect 0)).1.pinned 0 := by
  obtain ⟨s, run⟩ : ∃ s, s = Session.after {} ([] ++ .newHeap {} ::
    [.alloc 0 .plain, .alloc 0 .emittable, .newRefTo 0 ⟨0, 0⟩, .newRefTo 0 ⟨0, 0⟩, .bind 0 1 ⟨1, 0⟩,
      .newMap, .mapInsert 0 0 "key" ⟨0, 0⟩, .define 0 ⟨0, 0⟩ "watch" [.isBound 0],
      .release 0 ⟨0, 0⟩]) := ⟨_, rfl⟩
  obtain ⟨c, here, _, clears⟩ := reclamation_clears_lost_bindings {} (by decide) (by decide)
    (by decide) (by simp [Op.defines?, Finalizer.observes, Action.observes]) run
  refine ⟨s, c, run, here, clears, ?_⟩
  rw [run]
  decide +kernel

end WeakRefs
