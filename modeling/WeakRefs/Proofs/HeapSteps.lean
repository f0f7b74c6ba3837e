import WeakRefs.Proofs.BoundTargets
import WeakRefs.Proofs.OwedFinalizers

/-!
# What happens to one heap

The steps of `HeapSteps` are all that can happen to a heap between an allocation and a shutdown. A
finalizer runs only by `Delivers`, which asks that its target is not live at that moment.
-/

namespace WeakRefs

namespace Heap
variable {φ : Type} {h heap : Heap φ}

theorem object?_of_not_isLive {q : ObjectRef} (dead : h.isLive q = false) :
    h.object? q = none := by
  unfold isLive at dead
  cases live : h.object? q with
  | none => rfl
  | some o =>
    rw [live] at dead
    cases dead

theorem isLive_upkeep (upkeep : h.Upkeep heap) (q : ObjectRef) : heap.isLive q = h.isLive q := by
  have same := congrArg Option.isSome (kind?_upkeep upkeep q)
  unfold kind? at same
  rwa [Option.isSome_map, Option.isSome_map] at same

theorem config_upkeep (upkeep : h.Upkeep heap) : heap.config = h.config := by
  obtain ⟨slots, stats, same⟩ := upkeep_eq upkeep
  rw [same]

theorem Reclaims.isLive_eq_false {outcome : Heap φ × List (Reclaimed φ)}
    (reclaims : h.Reclaims outcome)
    {q : ObjectRef} (dead : h.isLive q = false) : outcome.1.isLive q = false := by
  cases alive : outcome.1.object? q with
  | none =>
    unfold isLive
    rw [alive]
    rfl
  | some o =>
    obtain ⟨⟨o', before, _⟩, _⟩ := reclaims.survivor q o alive
    rw [object?_of_not_isLive dead] at before
    cases before

theorem same_stats_define {r : ObjectRef} {f : φ} {a : Affiliation}
    (kept : h.define r f = .kept heap a) : heap.config = h.config ∧ heap.stats = h.stats := by
  obtain ⟨o, _, ⟨_, _, same⟩ | ⟨_, _, same⟩⟩ := define_cases kept
  · rw [same]
    exact ⟨rfl, rfl⟩
  · rw [same]
    exact ⟨rfl, rfl⟩

end Heap

namespace Session

/-- No collector changes and no finalizer runs. -/
structure LeavesHeaps (s s' : Session) : Prop where
  collectors : s'.collectors = s.collectors
  runs : s'.runs = s.runs

namespace LeavesHeaps
variable {s s' s'' : Session}

theorem refl (s : Session) : LeavesHeaps s s := ⟨rfl, rfl⟩

theorem trans (first : LeavesHeaps s s') (next : LeavesHeaps s' s'') : LeavesHeaps s s'' :=
  ⟨next.collectors.trans first.collectors, next.runs.trans first.runs⟩

theorem of_same (same : SameButBindings s s') : LeavesHeaps s s' := ⟨same.collectors, same.runs⟩

theorem emit (s : Session) (e : Event) : LeavesHeaps s (s.emit e) := ⟨rfl, rfl⟩

theorem emitAll (s : Session) (es : List Event) : LeavesHeaps s (s.emitAll es) := by
  rw [emitAll_eq]
  exact ⟨rfl, rfl⟩

theorem releaseRef (s : Session) (roots r : Nat) : LeavesHeaps s (s.releaseRef roots r) := by
  unfold Session.releaseRef
  split
  · exact (of_same (s.sameButBindings_disarm roots _)).trans ⟨rfl, rfl⟩
  · exact refl s

theorem dropRef (s : Session) (r : Nat) : LeavesHeaps s (s.dropRef r) := by
  unfold Session.dropRef
  split
  · exact (of_same (s.sameButBindings_discard _)).trans ⟨rfl, rfl⟩
  · exact refl s

theorem dropMap (s : Session) (m : Nat) : LeavesHeaps s (s.dropMap m) := by
  unfold Session.dropMap
  split
  · exact (of_same (s.sameButBindings_discardAll _)).trans ⟨rfl, rfl⟩
  · exact refl s

theorem onRef {focus : Focus} {r : Nat} {f : WeakReference → Session × ActionReply}
    (leaves : ∀ ref, LeavesHeaps s (f ref).1) : LeavesHeaps s (s.onRef focus r f).1 :=
  Session.onRef_induction (refl s) fun _ => leaves

theorem onMap {focus : Focus} {m : Nat} {f : WeakValueMap → Session × ActionReply}
    (leaves : ∀ map, LeavesHeaps s (f map).1) : LeavesHeaps s (s.onMap focus m f).1 :=
  Session.onMap_induction (refl s) fun _ => leaves

theorem act (s : Session) (focus : Focus) (roots : Nat) (a : Action) :
    LeavesHeaps s (s.act focus roots a).1 := by
  cases a with
  | pin handle => exact ⟨rfl, rfl⟩
  | unpin handle => exact ⟨rfl, rfl⟩
  | isAlive x => exact refl s
  | pinCount pins => exact refl s
  | isBound r => exact onRef fun _ => refl s
  | release r => exact onRef fun _ => releaseRef s roots r
  | dropRef r => exact onRef fun _ => dropRef s r
  | mapSize m => exact onMap fun _ => refl s
  | dropMap m => exact onMap fun _ => dropMap s m

theorem actAll (s : Session) (focus : Focus) (roots : Nat) (actions : List Action) :
    LeavesHeaps s (s.actAll focus roots actions).1 := by
  induction actions generalizing s with
  | nil => exact refl s
  | cons a rest ih => exact (act s focus roots a).trans (ih _)

theorem carryOut (s : Session) (focus : Focus) (roots : Nat) (f : Finalizer) :
    LeavesHeaps s (s.carryOut focus roots f) := by
  cases f with
  | endBinding c handle => exact of_same (s.sameButBindings_endBinding roots c handle)
  | report m key handle => exact ⟨rfl, rfl⟩
  | user label actions => exact (actAll s focus roots actions).trans ⟨rfl, rfl⟩

end LeavesHeaps

theorem runs_deliver (s : Session) (focus : Focus) (roots : Nat) (f : Finalizer) :
    (s.deliver focus roots f).runs = s.runs.push f :=
    (LeavesHeaps.carryOut (s.logRun f) focus roots f).runs

theorem runs_deliverAll (s : Session) (focus : Focus) (roots : Nat) (due : List Finalizer) :
    (s.deliverAll focus roots due).runs = s.runs ++ due.toArray := by
  induction due generalizing s with
  | nil => simp [deliverAll]
  | cons f rest ih =>
    have first : s.deliverAll focus roots (f :: rest) =
        (s.deliver focus roots f).deliverAll focus roots rest := rfl
    rw [first, ih, runs_deliver]
    simp

theorem collector?_modifyHeap_of_ne {i j : Nat} (other : j ≠ i) (s : Session)
    (f : Heap Finalizer → Heap Finalizer) : (s.modifyHeap i f).collector? j = s.collector? j := by
  unfold modifyHeap
  rw [collector?_modifyCollector, if_neg fun same => other same.symm]

/-- Finalizers run one after the other, each when heap `i` does not have its target. -/
inductive Delivers (i : Nat) : List (ObjectRef × Finalizer) → Session → Session → Prop where
  | nil (s : Session) : Delivers i [] s s
  | cons {s s' : Session} {r : ObjectRef} {f : Finalizer} {rest : List (ObjectRef × Finalizer)}
      (focus : Focus) (roots : Nat) : s.isLiveIn i r = false →
    Delivers i rest (s.deliver focus roots f) s' → Delivers i ((r, f) :: rest) s s'

namespace Delivers
variable {i : Nat} {due : List (ObjectRef × Finalizer)} {s s' : Session}

theorem collectors (delivers : Delivers i due s s') : s'.collectors = s.collectors := by
  induction delivers with
  | nil s => rfl
  | cons focus roots _ _ ih => exact ih.trans (collectors_deliver _ focus roots _)

theorem runs (delivers : Delivers i due s s') : s'.runs = s.runs ++ (due.map Prod.snd).toArray := by
  induction delivers with
  | nil s => simp
  | cons focus roots _ _ ih =>
    rw [ih, runs_deliver]
    simp

/-- No delivery brings a target back, so it is enough that they are gone at the start. -/
theorem deliverAll (s : Session) (focus : Focus) (roots : Nat)
    (gone : ∀ d ∈ due, s.isLiveIn i d.1 = false) :
    Delivers i due s (s.deliverAll focus roots (due.map Prod.snd)) := by
  induction due generalizing s with
  | nil => exact .nil s
  | cons d rest ih =>
    obtain ⟨r, f⟩ := d
    refine .cons focus roots (gone (r, f) List.mem_cons_self) (ih _ ?_)
    intro d listed
    unfold isLiveIn
    rw [collector?_congr (s.collectors_deliver focus roots f)]
    exact gone d (List.mem_cons_of_mem _ listed)

end Delivers

/-- What happens to heap `i`: the definitions that it accepts and the finalizers that run for it. -/
inductive HeapSteps (i : Nat) :
    List (ObjectRef × Finalizer) → List (ObjectRef × Finalizer) → Session → Session → Prop where
  | leaves {s s' : Session} : LeavesHeaps s s' → HeapSteps i [] [] s s'
  | upkeep {s : Session} {c : Collector} {heap : Heap Finalizer} : s.collector? i = some c →
    c.heap.Upkeep heap → heap.stats.finalizersRun = c.heap.stats.finalizersRun →
    HeapSteps i [] [] s (s.setCollector i { c with heap })
  /-- A definition on a live target is kept. -/
  | keep {s : Session} {c : Collector} {r : ObjectRef} {f : Finalizer} {heap : Heap Finalizer}
      {a : Affiliation} : s.collector? i = some c → c.heap.define r f = .kept heap a →
    HeapSteps i [(r, f)] [] s (s.setCollector i { c with heap })
  /-- A definition on a target that is gone runs at once. -/
  | late {s s' : Session} {c : Collector} {r : ObjectRef} {f : Finalizer} :
    s.collector? i = some c → Delivers i [(r, f)] s s' →
    HeapSteps i [(r, f)] [(r, f)] s (s'.modifyHeap i (·.countRun 1))
  /-- Objects are reclaimed, then what was kept for them runs. -/
  | reclaim {s s₁ s' : Session} {c : Collector}
      {outcome : Heap Finalizer × List (Reclaimed Finalizer)} : s.collector? i = some c →
    c.heap.Reclamation outcome → LeavesHeaps (s.setCollector i { c with heap := outcome.1 }) s₁ →
    Delivers i (c.heap.fallen outcome.2) s₁ s' → HeapSteps i [] (c.heap.fallen outcome.2) s
      (s'.modifyHeap i (·.countRun (c.heap.fallen outcome.2).length))
  /-- Nothing is said of a collector with a script but that the others stay as they are. -/
  | scripted {s s' : Session} {c : Collector} {accepted ran : List (ObjectRef × Finalizer)} :
    s.collector? i = some c → ¬ c.IsPlain → (∀ j, j ≠ i → s'.collector? j = s.collector? j) →
    HeapSteps i accepted ran s s'
  | trans {s s' s'' : Session} {accepted accepted' ran ran' : List (ObjectRef × Finalizer)} :
    HeapSteps i accepted ran s s' → HeapSteps i accepted' ran' s' s'' →
    HeapSteps i (accepted ++ accepted') (ran ++ ran') s s''

/-- What becomes of a heap that owes `owed`: afterwards it owes what is left with the objects that
are left, and the rest has run. -/
structure StepAccount (owed accepted ran : List (ObjectRef × Finalizer)) (c c' : Collector) :
    Prop where
  sound : c'.heap.Sound
  owes : c'.heap.Owes ((owed ++ accepted).filter fun d => c'.heap.isLive d.1)
  fell : ran.Perm ((owed ++ accepted).filter fun d => !c'.heap.isLive d.1)
  counted : c'.heap.stats.finalizersRun = c.heap.stats.finalizersRun + ran.length
  gone : ∀ q, c.heap.isLive q = false → c'.heap.isLive q = false
  config : c'.heap.config = c.heap.config
  plain : c'.IsPlain

namespace StepAccount
variable {owed accepted accepted' ran ran' : List (ObjectRef × Finalizer)} {c c' c'' : Collector}

theorem keeping {c' : Collector} (sound : c'.heap.Sound) (owes : c'.heap.Owes (owed ++ accepted))
    (counted : c'.heap.stats.finalizersRun = c.heap.stats.finalizersRun)
    (gone : ∀ q, c.heap.isLive q = false → c'.heap.isLive q = false)
    (config : c'.heap.config = c.heap.config) (plain : c'.IsPlain) :
    StepAccount owed accepted [] c c' where
  sound := sound
  owes := by
    rw [owes.filter_isLive sound]
    exact owes
  fell := by
    rw [owes.filter_dead sound]
  counted := counted
  gone := gone
  config := config
  plain := plain

section Steps
variable (plain : c.IsPlain) (sound : c.heap.Sound) (owes : c.heap.Owes owed)
include plain sound owes

theorem upkeep {heap : Heap Finalizer} (upkeep : c.heap.Upkeep heap)
    (counted : heap.stats.finalizersRun = c.heap.stats.finalizersRun) :
    StepAccount owed [] [] c { c with heap } := by
  refine .keeping (sound.upkeep upkeep) ?_ counted ?_ (Heap.config_upkeep upkeep)
    ⟨plain.script, plain.stash, plain.reach⟩
  · rw [List.append_nil]
    exact owes.congr (Heap.pendingOf_upkeep upkeep)
  · exact fun q dead => (Heap.isLive_upkeep upkeep q).trans dead

theorem keep {r : ObjectRef} {f : Finalizer} {heap : Heap Finalizer} {a : Affiliation}
    (kept : c.heap.define r f = .kept heap a) : StepAccount owed [(r, f)] [] c { c with heap } := by
  have same := Heap.same_stats_define kept
  refine .keeping (sound.define kept) (owes.define sound kept) ?_ ?_ same.1
    ⟨plain.script, plain.stash, plain.reach⟩
  · exact congrArg HeapStats.finalizersRun same.2
  · exact fun q dead => (Heap.isLive_define kept q).trans dead

theorem late {r : ObjectRef} {f : Finalizer} (dead : c.heap.isLive r = false) :
    StepAccount owed [(r, f)] [(r, f)] c { c with heap := c.heap.countRun 1 } := by
  have same (q : ObjectRef) : (c.heap.countRun 1).isLive q = c.heap.isLive q := rfl
  refine ⟨sound.upkeep (.countRun 1), ?_, ?_, rfl, fun _ dead => dead, rfl,
    ⟨plain.script, plain.stash, plain.reach⟩⟩
  · have left : ((owed ++ [(r, f)]).filter fun d => (c.heap.countRun 1).isLive d.1) = owed := by
      simp only [List.filter_append, same, owes.filter_isLive sound]
      simp [dead]
    rw [left]
    exact owes.congr (Heap.pendingOf_upkeep (.countRun 1))
  · have due : ((owed ++ [(r, f)]).filter fun d => !(c.heap.countRun 1).isLive d.1) = [(r, f)] := by
      simp only [List.filter_append, same, owes.filter_dead sound]
      simp [dead]
    rw [due]

theorem reclaim {outcome : Heap Finalizer × List (Reclaimed Finalizer)}
    (reclamation : c.heap.Reclamation outcome) : StepAccount owed [] (c.heap.fallen outcome.2) c
      { c with heap := outcome.1.countRun (c.heap.fallen outcome.2).length } := by
  have reclaims := Heap.reclaims sound reclamation
  have stats := Heap.same_stats_reclamation reclamation
  have live (q : ObjectRef) : (outcome.1.countRun (c.heap.fallen outcome.2).length).isLive q =
      outcome.1.isLive q := rfl
  refine ⟨reclaims.sound.upkeep (.countRun _), ?_, ?_, ?_, ?_, stats.2,
    ⟨plain.script, plain.stash, plain.reach⟩⟩
  · simp only [List.append_nil, live]
    exact (owes.reclaim sound reclamation).congr (Heap.pendingOf_upkeep (.countRun _))
  · simp only [List.append_nil, live]
    exact Heap.fallen_perm owes sound reclamation
  · exact congrArg (· + (c.heap.fallen outcome.2).length) stats.1
  · exact fun q dead => reclaims.isLive_eq_false dead

end Steps

theorem trans (first : StepAccount owed accepted ran c c')
    (next : StepAccount ((owed ++ accepted).filter fun d => c'.heap.isLive d.1) accepted' ran' c'
    c'') :
    StepAccount owed (accepted ++ accepted') (ran ++ ran') c c'' where
  sound := next.sound
  owes := by
    have owes := next.owes
    rw [List.filter_append, List.filter_filter] at owes
    rw [← List.append_assoc, List.filter_append]
    have same : ((owed ++ accepted).filter fun d => c''.heap.isLive d.1 && c'.heap.isLive d.1) =
        (owed ++ accepted).filter fun d => c''.heap.isLive d.1 := by
      apply List.filter_congr
      intro d _
      cases there : c'.heap.isLive d.1 with
      | true => rw [Bool.and_true]
      | false => rw [next.gone _ there, Bool.and_false]
    rwa [same] at owes
  fell := by
    have later := next.fell
    rw [List.filter_append, List.filter_filter] at later
    have split := filter_perm_append (fun d => c'.heap.isLive d.1)
      ((owed ++ accepted).filter fun d => !c''.heap.isLive d.1)
    rw [List.filter_filter, List.filter_filter] at split
    have gone_first : ((owed ++ accepted).filter fun d =>
        (!c'.heap.isLive d.1) && !c''.heap.isLive d.1) =
          (owed ++ accepted).filter fun d => !c'.heap.isLive d.1 := by
      apply List.filter_congr
      intro d _
      cases there : c'.heap.isLive d.1 with
      | true => rfl
      | false => rw [next.gone _ there]; rfl
    have swap : ((owed ++ accepted).filter fun d => c'.heap.isLive d.1 && !c''.heap.isLive d.1) =
        (owed ++ accepted).filter fun d => (!c''.heap.isLive d.1) && c'.heap.isLive d.1 := by
      apply List.filter_congr
      intro d _
      exact Bool.and_comm _ _
    rw [gone_first, swap] at split
    rw [← List.append_assoc, List.filter_append]
    refine (first.fell.append later).trans ?_
    rw [← List.append_assoc]
    exact (List.perm_append_comm.trans split.symm).append_right _
  counted := by
    rw [next.counted, first.counted, List.length_append, Nat.add_assoc]
  gone q dead := next.gone q (first.gone q dead)
  config := next.config.trans first.config
  plain := next.plain

end StepAccount

namespace HeapSteps
variable {i : Nat} {accepted ran : List (ObjectRef × Finalizer)} {s s' : Session}

theorem elsewhere (served : HeapSteps i accepted ran s s') {j : Nat} (other : j ≠ i) :
    s'.collector? j = s.collector? j := by
  induction served with
  | leaves leaves => exact collector?_congr leaves.collectors j
  | upkeep here _ _ => rw [collector?_setCollector _ here, if_neg other]
  | keep here _ => rw [collector?_setCollector _ here, if_neg other]
  | late here delivers =>
    rw [collector?_modifyHeap_of_ne other]
    exact collector?_congr delivers.collectors j
  | reclaim here _ leaves delivers =>
    rw [collector?_modifyHeap_of_ne other, collector?_congr delivers.collectors,
      collector?_congr leaves.collectors, collector?_setCollector _ here, if_neg other]
  | scripted _ _ others => exact others j other
  | trans _ _ ih ih' => exact ih'.trans ih

theorem absent (served : HeapSteps i accepted ran s s') (none_here : s.collector? i = none) :
    accepted = [] ∧ ran = [] ∧ LeavesHeaps s s' := by
  have never {c : Collector} {s : Session} (here : s.collector? i = some c)
      (none_here : s.collector? i = none) {P : Prop} : P := by
    rw [none_here] at here
    cases here
  induction served with
  | leaves leaves => exact ⟨rfl, rfl, leaves⟩
  | upkeep here _ _ => exact never here none_here
  | keep here _ => exact never here none_here
  | late here _ => exact never here none_here
  | reclaim here _ _ _ => exact never here none_here
  | scripted here _ _ => exact never here none_here
  | trans _ _ ih ih' =>
    obtain ⟨none_accepted, none_ran, leaves⟩ := ih none_here
    obtain ⟨none_accepted', none_ran', leaves'⟩ :=
      ih' ((collector?_congr leaves.collectors i).trans none_here)
    rw [none_accepted, none_ran, none_accepted', none_ran']
    exact ⟨rfl, rfl, leaves.trans leaves'⟩

theorem account (served : HeapSteps i accepted ran s s') {c : Collector}
    (here : s.collector? i = some c) (plain : c.IsPlain) (sound : c.heap.Sound)
    {owed : List (ObjectRef × Finalizer)} (owes : c.heap.Owes owed) :
    s'.runs = s.runs ++ (ran.map Prod.snd).toArray ∧
      ∃ c', s'.collector? i = some c' ∧ StepAccount owed accepted ran c c' := by
  induction served generalizing c owed with
  | leaves leaves =>
    refine ⟨by simp [leaves.runs], c, (collector?_congr leaves.collectors i).trans here, ?_⟩
    refine .keeping sound ?_ rfl (fun _ dead => dead) rfl plain
    rw [List.append_nil]
    exact owes
  | @upkeep s d heap there upkeep counted =>
    obtain rfl := Option.some.inj (here.symm.trans there)
    exact ⟨by simp [setCollector], _, collector?_setCollector_self here _,
      .upkeep plain sound owes upkeep counted⟩
  | @keep s d r f heap a there kept =>
    obtain rfl := Option.some.inj (here.symm.trans there)
    exact ⟨by simp [setCollector], _, collector?_setCollector_self here _,
      .keep plain sound owes kept⟩
  | @late s s' d r f there delivers =>
    obtain rfl := Option.some.inj (here.symm.trans there)
    have still := (collector?_congr delivers.collectors i).trans here
    have dead : c.heap.isLive r = false := by
      cases delivers with
      | cons _ _ gone _ =>
        unfold isLiveIn at gone
        rw [here] at gone
        exact gone
    refine ⟨delivers.runs, _, ?_, .late plain sound owes dead⟩
    rw [modifyHeap_eq still]
    exact collector?_setCollector_self still _
  | @reclaim s s₁ s' d outcome there reclamation leaves delivers =>
    obtain rfl := Option.some.inj (here.symm.trans there)
    have written := collector?_setCollector_self here { c with heap := outcome.1 }
    have still := (collector?_congr delivers.collectors i).trans
      ((collector?_congr leaves.collectors i).trans written)
    refine ⟨?_, _, ?_, .reclaim plain sound owes reclamation⟩
    · change s'.runs = _
      rw [delivers.runs, leaves.runs]
      rfl
    · rw [modifyHeap_eq still]
      exact collector?_setCollector_self still _
  | scripted there scripted _ =>
    rw [here] at there
    cases there
    exact absurd plain scripted
  | trans _ _ ih ih' =>
    obtain ⟨runs, c', here', first⟩ := ih here plain sound owes
    obtain ⟨runs', c'', here'', next⟩ := ih' here' first.plain first.sound first.owes
    refine ⟨?_, c'', here'', first.trans next⟩
    rw [runs', runs]
    simp

end HeapSteps

end Session

end WeakRefs
