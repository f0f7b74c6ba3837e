import WeakRefs.Proofs.NoNewBindings

/-!
# What becomes of collectors

A collector keeps its pin set and its runtime, its heap remains sound, and only a script makes it
deviate. A finalizer that it keeps was defined on it.
-/

namespace WeakRefs

namespace Collector

/-- Nobody interferes with the collector: it does what its heap does. -/
structure IsPlain (c : Collector) : Prop where
  script : c.script = []
  stash : c.stash = []
  reach : c.reach = ∅

theorem IsPlain.isReachable {c : Collector} (plain : c.IsPlain) (r : ObjectRef) :
    c.isReachable r = c.heap.isReachable r := by
  unfold Collector.isReachable
  rw [plain.reach, Table.get?_empty]
  rfl

theorem IsPlain.nextDirective {c : Collector} (plain : c.IsPlain) : c.nextDirective = .pass := by
  unfold Collector.nextDirective
  rw [plain.script]
  rfl

/-- Without a script a finalizer is kept on a live target, and runs at once on a dead one. -/
theorem IsPlain.receives {c c' : Collector} (plain : c.IsPlain) {r : ObjectRef} {f : Finalizer}
    {ran : Bool} {a : Affiliation} (received : c.Receives r f c' ran a) :
    (ran = false ∧ ∃ heap, c' = { c.advance with heap } ∧ c.heap.define r f = .kept heap a) ∨
      (ran = true ∧ c' = c.advance ∧ c.heap.isLive r = false) := by
  cases received with
  | kept kept => exact Or.inl ⟨rfl, _, rfl, kept⟩
  | due dead =>
    refine Or.inr ⟨rfl, rfl, ?_⟩
    unfold Heap.isLive
    rw [dead]
    rfl
  | now _ scripted => exact absurd plain.script scripted
  | stashed _ scripted => exact absurd plain.script scripted
  | lost _ scripted => exact absurd plain.script scripted

/-- What becomes of collector `j` in a move: it keeps its pin set and its runtime, its heap remains
sound, only a script makes it deviate, and only an allocation brings objects. -/
structure Becomes (t : Tag) (j : Nat) (d d' : Collector) : Prop where
  pins : d'.heap.pins = d.heap.pins
  runtime : d'.heap.runtime = d.heap.runtime
  sound : d.heap.Sound → d'.heap.Sound
  plain : t ≠ .script j → d.IsPlain → d'.IsPlain
  gone : t ≠ .alloc → d.heap.Sound → ∀ q, d.heap.object? q = none → d'.heap.object? q = none

theorem Becomes.refl (t : Tag) (j : Nat) (d : Collector) : Becomes t j d d :=
  ⟨rfl, rfl, id, fun _ plain => plain, fun _ _ _ gone => gone⟩

theorem Receives.becomes {c c' : Collector} {r : ObjectRef} {f : Finalizer} {ran : Bool}
    {a : Affiliation} (received : c.Receives r f c' ran a) (t : Tag) (j : Nat) :
    Becomes t j c c' := by
  refine ⟨received.pins.1, received.pins.2, ?_, ?_, ?_⟩
  · intro sound
    cases received with
    | kept kept => exact sound.define kept
    | due _ => exact sound
    | now _ _ => exact sound
    | stashed _ _ => exact sound
    | lost _ _ => exact sound
  · intro _ plain
    have advanced : c.advance.script = [] := by
      unfold advance
      rw [plain.script]
      rfl
    cases received with
    | kept kept => exact ⟨advanced, plain.stash, plain.reach⟩
    | due _ => exact ⟨advanced, plain.stash, plain.reach⟩
    | now _ scripted => exact absurd plain.script scripted
    | stashed _ scripted => exact absurd plain.script scripted
    | lost _ scripted => exact absurd plain.script scripted
  · intro _ _ q gone
    cases received with
    | kept kept => exact Heap.kind?_eq_none_iff.mp ((Heap.kind?_define kept q).trans
        (Heap.kind?_eq_none_iff.mpr gone))
    | due _ => exact gone
    | now _ _ => exact gone
    | stashed _ _ => exact gone
    | lost _ _ => exact gone

end Collector

/-- What a move makes of the collectors: one of them changes, or a heap comes or goes. -/
inductive Evolves (t : Tag) (s s' : Session) : Prop where
  | same : s'.collectors = s.collectors → Evolves t s s'
  | set {i : Nat} {c d : Collector} : s.collector? i = some c → c.Becomes t i d →
    s'.collectors = s.collectors.setIfInBounds i (some d) → Evolves t s s'
  | opened (config : HeapConfig) : t = .newHeap → s'.collectors = s.collectors.push (some
      { heap := { runtime := ⟨s.runtimes + 1⟩, config, pins := s.pinSets.size } }) → Evolves t s s'
  | closed {i : Nat} : t = .shutDown i → s'.collectors = s.collectors.setIfInBounds i none →
    Evolves t s s'

namespace Evolves
variable {t : Tag} {s s' : Session} {j : Nat}

/-- A collector was there before, or it is the one that the move made. -/
theorem descends (evolves : Evolves t s s') {d' : Collector} (there : s'.collector? j = some d') :
    (∃ d, s.collector? j = some d ∧ d.Becomes t j d') ∨
      (t = .newHeap ∧ j = s.collectors.size ∧ ∃ config, d' =
        { heap := { runtime := ⟨s.runtimes + 1⟩, config, pins := s.pinSets.size } }) := by
  cases evolves with
  | same collectors =>
    rw [Session.collector?_congr collectors] at there
    exact Or.inl ⟨d', there, .refl t j d'⟩
  | @set i c c' here becomes collectors =>
    have view : s'.collector? j = (s.setCollector i c').collector? j :=
      Session.collector?_congr collectors j
    rw [view, s.collector?_setCollector here] at there
    split at there
    · rename_i same
      subst same
      cases there
      exact Or.inl ⟨c, here, becomes⟩
    · exact Or.inl ⟨d', there, .refl t j d'⟩
  | opened config tag collectors =>
    unfold Session.collector? at there
    rw [collectors, Array.getElem?_push] at there
    split at there
    · rename_i new
      cases there
      exact Or.inr ⟨tag, new, config, rfl⟩
    · exact Or.inl ⟨d', there, .refl t j d'⟩
  | closed tag collectors =>
    unfold Session.collector? at there
    rw [collectors, Array.getElem?_setIfInBounds] at there
    split at there
    · split at there <;> cases there
    · exact Or.inl ⟨d', there, .refl t j d'⟩

/-- A collector stays until it is shut down. -/
theorem stays (evolves : Evolves t s s') (calm : t ≠ .shutDown j) {d : Collector}
    (here : s.collector? j = some d) : ∃ d', s'.collector? j = some d' ∧ d.Becomes t j d' := by
  cases evolves with
  | same collectors => exact ⟨d, (Session.collector?_congr collectors j).trans here, .refl t j d⟩
  | @set i c c' at_i becomes collectors =>
    have view : s'.collector? j = (s.setCollector i c').collector? j :=
      Session.collector?_congr collectors j
    rw [view, s.collector?_setCollector at_i]
    split
    · rename_i same
      subst same
      rw [at_i] at here
      cases here
      exact ⟨c', rfl, becomes⟩
    · exact ⟨d, here, .refl t j d⟩
  | opened config tag collectors =>
    refine ⟨d, ?_, .refl t j d⟩
    have inside := s.lt_size_of_collector? here
    unfold Session.collector?
    rw [collectors, Array.getElem?_push, if_neg (Nat.ne_of_lt inside)]
    exact here
  | @closed i tag collectors =>
    refine ⟨d, ?_, .refl t j d⟩
    have apart : i ≠ j := by
      intro same
      rw [same] at tag
      exact calm tag
    unfold Session.collector?
    rw [collectors, Array.getElem?_setIfInBounds, if_neg apart]
    exact here

theorem size (evolves : Evolves t s s') (calm : t ≠ .newHeap) :
    s'.collectors.size = s.collectors.size := by
  cases evolves with
  | same collectors => rw [collectors]
  | set _ _ collectors => rw [collectors, Array.size_setIfInBounds]
  | opened _ tag _ => exact absurd tag calm
  | closed _ collectors => rw [collectors, Array.size_setIfInBounds]

theorem size_le (evolves : Evolves t s s') : s.collectors.size ≤ s'.collectors.size := by
  cases evolves with
  | same collectors => exact Nat.le_of_eq (congrArg Array.size collectors).symm
  | set _ _ collectors => simp [collectors]
  | opened _ _ collectors => simp [collectors]
  | closed _ collectors => simp [collectors]

end Evolves

namespace Move
variable {t : Tag} {m m' : Moment}

theorem evolves (move : Move t m m') : Evolves t m.session m'.session := by
  obtain ⟨s, hand, running, flight⟩ := m
  cases move with
  | remark _ e _ => exact .same rfl
  | record _ d => exact .same rfl
  | initialized _ x => exact .same rfl
  | tornDown _ x =>
    refine .same ?_
    unfold Session.recordTornDown
    split <;> rfl
  | freshRuntime _ => exact .same rfl
  | freshHandle _ => exact .same rfl
  | newPinSet _ => exact .same rfl
  | modifyPins _ pins f => exact .same rfl
  | newHeap _ config => exact .opened config rfl rfl
  | newTrace _ => exact .same rfl
  | newMap _ => exact .same rfl
  | @script _ i c c' here heap stash =>
    refine .set here ?_ rfl
    refine ⟨by rw [heap], by rw [heap], fun sound => heap ▸ sound, ?_, ?_⟩
    · exact fun other => absurd rfl other
    · exact fun _ _ q gone => heap ▸ gone
  | @advance _ i c here =>
    refine .set (d := c.advance) here ⟨rfl, rfl, id, ?_, fun _ _ _ gone => gone⟩ rfl
    intro _ plain
    refine ⟨?_, plain.stash, plain.reach⟩
    unfold Collector.advance
    rw [plain.script]
    rfl
  | @alloc _ i c kind heap r here _ allocated =>
    have same := Heap.same_alloc allocated
    refine .set (d := { c with heap }) here ⟨same.1, same.2, ?_, ?_, ?_⟩ rfl
    · exact fun sound => sound.alloc allocated
    · exact fun _ plain => ⟨plain.script, plain.stash, plain.reach⟩
    · exact fun other => absurd rfl other
  | @upkeep _ i c heap here upkeep =>
    have same := Heap.same_upkeep upkeep
    refine .set (d := { c with heap }) here ⟨same.1, same.2, ?_, ?_, ?_⟩ rfl
    · exact fun sound => sound.upkeep upkeep
    · exact fun _ plain => ⟨plain.script, plain.stash, plain.reach⟩
    · exact fun _ _ q gone => Heap.kind?_eq_none_iff.mp ((Heap.kind?_upkeep upkeep q).trans
        (Heap.kind?_eq_none_iff.mpr gone))
  | @reclaim _ i c outcome here idle calm reclamation =>
    have same := Heap.same_reclamation reclamation
    refine .set (d := { c with heap := outcome.1 }) here ⟨same.1, same.2, ?_, ?_, ?_⟩ ?_
    · exact fun sound => (Heap.reclaims sound reclamation).sound
    · exact fun _ plain => ⟨plain.script, plain.stash, plain.reach⟩
    · intro _ sound q gone
      cases live : outcome.1.object? q with
      | none => rfl
      | some o =>
        obtain ⟨⟨o', before, _⟩, _⟩ := (Heap.reclaims sound reclamation).survivor q o live
        rw [gone] at before
        cases before
    · dsimp only
      rw [Session.emitAll_eq]
      rfl
  | receive _ here idle calm proper received =>
    exact .set here (received.becomes _ _) rfl
  | @unstash _ i c position f here idle calm stashed =>
    refine .set (d := { c with stash := c.stash.eraseIdx position }) here
      ⟨rfl, rfl, id, ?_, fun _ _ _ gone => gone⟩ rfl
    intro _ plain
    rw [plain.stash] at stashed
    cases stashed
  | @drain _ i c groups here idle calm all =>
    refine .set (d := { c with heap := c.heap.emptied }) here
      ⟨rfl, rfl, fun _ => .emptied, ?_, ?_⟩ rfl
    · exact fun _ plain => ⟨plain.script, plain.stash, plain.reach⟩
    · intro _ _ q _
      simp [Heap.emptied, Heap.object?]
  | close _ here calm => exact .closed rfl rfl
  | begin _ idle flies => exact .same rfl
  | report _ idle flies => exact .same rfl
  | fire _ here idle flies =>
    exact .same ((s.logRun _).sameButBindings_endBinding _ _ _).collectors
  | skip _ runs => exact .same rfl
  | actPin _ here runs => exact .same rfl
  | actUnpin _ here runs => exact .same rfl
  | disarm _ here held => exact .same (s.collectors_disarm _ _)
  | discard _ held => exact .same (s.collectors_discard _)
  | clear _ here held binding bound dead =>
    exact .same (s.sameButBindings_clearDead _ _ _).collectors
  | empty _ here unbound => exact .same rfl
  | vacate _ here unbound => exact .same rfl
  | dropHand _ here unbound => exact .same rfl
  | thin _ here unbound => exact .same rfl
  | prune _ here => exact .same (s.collectors_discardAll _)
  | dropMap _ here => exact .same (s.collectors_discardAll _)
  | newRef _ => exact .same rfl
  | take _ free => exact .same rfl
  | attach _ here held loose unbound calm received =>
    exact .set here (received.becomes _ _) (Moment.put_same _ _ _).collectors
  | enlist _ here => exact .same rfl
  | place _ here map vacant => exact .same rfl

theorem runtimes_le (move : Move t m m') : m.session.runtimes ≤ m'.session.runtimes := by
  obtain ⟨s, hand, running, flight⟩ := m
  cases move with
  | tornDown _ x =>
    unfold Session.recordTornDown
    dsimp only
    split <;> exact Nat.le_refl _
  | freshRuntime _ => exact Nat.le_succ _
  | newHeap _ config => exact Nat.le_succ _
  | reclaim _ here idle calm reclamation =>
    dsimp only
    rw [Session.emitAll_eq]
    exact Nat.le_refl _
  | fire _ here idle flies =>
    exact Nat.le_of_eq ((s.logRun _).sameButBindings_endBinding _ _ _).runtimes.symm
  | disarm _ here held => exact Nat.le_of_eq (s.sameButBindings_disarm _ _).runtimes.symm
  | discard _ held => exact Nat.le_of_eq (s.sameButBindings_discard _).runtimes.symm
  | clear _ here held binding bound dead =>
    exact Nat.le_of_eq (s.sameButBindings_clearDead _ _ _).runtimes.symm
  | prune _ here => exact Nat.le_of_eq (s.sameButBindings_discardAll _).runtimes.symm
  | dropMap _ here => exact Nat.le_of_eq (s.sameButBindings_discardAll _).runtimes.symm
  | attach _ here held loose unbound calm received =>
    rw [(Moment.put_same _ _ _).runtimes]
    exact Nat.le_refl _
  | _ => exact Nat.le_refl _

theorem runtimes_newHeap (move : Move .newHeap m m') :
    m'.session.runtimes = m.session.runtimes + 1 := by
  cases move with
  | newHeap _ config => rfl

theorem heapsSound (sound : m.session.HeapsSound) (move : Move t m m') :
    m'.session.HeapsSound := by
  intro j d' there
  rcases move.evolves.descends there with ⟨d, here, becomes⟩ | ⟨_, _, config, new⟩
  · exact becomes.sound (sound j d here)
  · rw [new]
    exact .empty

/-- A finalizer that waits has waited before, unless the move defines it. -/
theorem awaits (sound : m.session.HeapsSound) (move : Move t m m') {f : Finalizer}
    (waiting : m'.Awaits f) : m.Awaits f ∨ t.defines f ∨ ∃ c h, f = .endBinding c h := by
  cases quiet : t.brings with
  | false =>
    rcases (move.noNew sound quiet).awaits f waiting with waited | fresh
    · exact Or.inl waited
    · exact Or.inr (Or.inl fresh)
  | true =>
    cases t with
    | arrive p =>
      have same := move.rearranges
      left
      rcases waiting with kept | flying
      · exact Or.inl ((Session.keeps_congr same.collectors _).mp kept)
      · exact Or.inr (same.flight ▸ flying)
    | bind i h target =>
      obtain ⟨p, ref, b, c, c', ran, _, attaches⟩ := move.attaches
      rcases attaches.awaits_cases waiting with its | waited
      · exact Or.inr (Or.inr ⟨_, _, its⟩)
      · exact Or.inl waited
    | _ => cases quiet

end Move

end WeakRefs
