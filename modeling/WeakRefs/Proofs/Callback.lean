import Mathlib.Data.List.Perm.Subperm
import WeakRefs.Proofs.EntryInvariant
import WeakRefs.Proofs.RunOnce

/-!
# Callbacks of users

A callback is kept while its object is there, and runs in the operation in which the object goes.
Where two callbacks are equal, their places among those pending tell them apart.
-/

namespace WeakRefs

theorem Move.runs_cases {t : Tag} {m m' : Moment} (move : Move t m m') :
    m'.session.runs = m.session.runs ∨ ∃ f, m'.session.runs = m.session.runs.push f ∧
      (f ∈ m.flight ∨ ∃ d h, f = .endBinding d h) := by
  obtain ⟨s, hand, running, flight⟩ := m
  have first {f : Finalizer} {rest : List Finalizer} (flies : flight = f :: rest) : f ∈ flight :=
    flies ▸ List.mem_cons_self
  cases move with
  | tornDown _ x => exact Or.inl (Session.leavesHeaps_recordTornDown s x).runs
  | reclaim _ here idle calm reclamation =>
    left
    dsimp only
    rw [Session.emitAll_eq]
    rfl
  | begin _ idle flies => exact Or.inr ⟨_, rfl, Or.inl (first flies)⟩
  | report _ idle flies => exact Or.inr ⟨_, rfl, Or.inl (first flies)⟩
  | fire _ here idle flies =>
    exact Or.inr ⟨_, ((s.logRun _).sameButBindings_endBinding _ _ _).runs, Or.inl (first flies)⟩
  | disarm _ here held => exact Or.inl (s.sameButBindings_disarm _ _).runs
  | discard _ held => exact Or.inl (s.sameButBindings_discard _).runs
  | clear _ here held binding bound dead =>
    exact Or.inl (s.sameButBindings_clearDead _ _ _).runs
  | prune _ here => exact Or.inl (s.sameButBindings_discardAll _).runs
  | dropMap _ here => exact Or.inl (s.sameButBindings_discardAll _).runs
  | @attach _ i c c' p ref target ran a here held loose unbound calm received =>
    rw [(Moment.put_same _ _ _).runs]
    cases ran with
    | false => exact Or.inl rfl
    | true => exact Or.inr ⟨_, rfl, Or.inr ⟨_, _, rfl⟩⟩
  | _ => exact Or.inl rfl

theorem Move.count_runs {t : Tag} {m m' : Moment} (move : Move t m m') {label : String}
    {actions : List Action} (rests : .user label actions ∉ m.flight) :
    m'.session.runs.count (.user label actions) = m.session.runs.count (.user label actions) := by
  rcases move.runs_cases with same | ⟨f, pushed, origin⟩
  · rw [same]
  · rw [pushed, Array.count_push_of_ne]
    rintro rfl
    rcases origin with flies | ⟨_, _, same⟩
    · exact rests flies
    · cases same

/-- While its target is there, a finalizer is kept. -/
theorem KeptInHeap.Becomes.stays {i : Nat} {f : Finalizer} {kind : ObjectKind} {target : ObjectRef}
    {m : Moment} (becomes : Becomes i f kind target m)
    (live : m.session.isLiveIn i target = true) : KeptInHeap i f kind target m := by
  rcases becomes with still | ⟨_, gone⟩ | gone
  · exact still
  · exact nomatch (Session.isLiveIn_eq_false_iff.mpr gone).symm.trans live
  · have nobody : ∀ c, m.session.collector? i = some c → c.heap.object? target = none :=
      fun c here => nomatch gone.symm.trans here
    exact nomatch (Session.isLiveIn_eq_false_iff.mpr nobody).symm.trans live

/-- A finalizer waits nowhere, and so many times it has run. -/
structure Ran (f : Finalizer) (times : Nat) (m : Moment) : Prop where
  rests : ¬ m.Awaits f
  count : m.session.runs.count f = times

section Users
variable {label : String} {actions : List Action} {op : Op} {s : Session}

/-- Without a definition of it, no move of an operation defines the callback. -/
theorem Session.Allows.old {t : Tag} (allowed : s.Allows op t)
    (other : op.defines? ≠ some (.user label actions)) : ¬ t.defines (.user label actions) := by
  intro defined
  cases allowed with
  | user brought => exact other (defined ▸ brought)
  | _ => cases defined

theorem Session.defines_of_accepted {q : ObjectRef}
    (accepted : (q, .user label actions) ∈ s.accepted op) :
    op.defines? = some (.user label actions) := by
  have mine {g : Finalizer} {r : ObjectRef} {α : Type} {answer : Except RefError α}
      (listed : (q, Finalizer.user label actions) ∈ granted (r, g) answer) :
      g = .user label actions := by
    cases answer with
    | ok a => exact (Prod.mk.inj (List.mem_singleton.mp listed)).2.symm
    | error e => cases listed
  cases op with
  | define i obj l actions' => exact congrArg some (mine accepted)
  | newRefTo i obj => exact nomatch mine accepted
  | bind i r obj =>
    obtain ⟨ref, _, listed⟩ := List.mem_flatMap.mp accepted
    exact nomatch mine listed
  | refDefine i r l actions' =>
    obtain ⟨ref, _, listed⟩ := List.mem_flatMap.mp accepted
    obtain ⟨target, _, listed⟩ := List.mem_flatMap.mp listed
    exact congrArg some (mine listed)
  | mapInsert i m key obj =>
    replace accepted : (q, Finalizer.user label actions) ∈ s.acceptedByInsert i m key obj :=
      accepted
    unfold acceptedByInsert at accepted
    split at accepted
    · cases accepted
    · rcases List.mem_append.mp accepted with bound | reported
      · exact nomatch mine bound
      · exact nomatch mine reported
  | _ => cases accepted

namespace Ran
variable {times : Nat} {m m' : Moment}

theorem move (ran : Ran (.user label actions) times m) (sound : m.session.HeapsSound) {t : Tag}
    (move : Move t m m') (old : ¬ t.defines (.user label actions)) :
    Ran (.user label actions) times m' := by
  refine ⟨fun waits => ?_, (move.count_runs fun flies => ran.rests (Or.inr flies)).trans ran.count⟩
  rcases move.awaits sound waits with before | defined | ⟨_, _, same⟩
  · exact ran.rests before
  · exact old defined
  · cases same

theorem run (ran : Ran (.user label actions) times ⟨s, none, [], []⟩)
    (ownership : Ownership ⟨s, none, [], []⟩) {ops : List Op}
    (others : ∀ op ∈ ops, op.defines? ≠ some (.user label actions)) :
    Ran (.user label actions) times ⟨s.after ops, none, [], []⟩ :=
  Session.after_keeps ownership (fun op listed _ _ _ _ allowed ownership move ran =>
    ran.move ownership.heaps move (allowed.old (others op listed))) ran

theorem empty (f : Finalizer) : Ran f 0 ⟨{}, none, [], []⟩ := by
  refine ⟨?_, rfl⟩
  rintro (⟨i, c, here, _⟩ | flies)
  · simp [Session.collector?] at here
  · cases flies

end Ran

end Users

namespace Collector.KeepsOnce
variable {c : Collector} {f : Finalizer} {kind : ObjectKind} {target : ObjectRef}
variable {owed : List (ObjectRef × Finalizer)} (keptOnce : c.KeepsOnce f kind target)
variable (owes : c.heap.Owes owed)
include keptOnce owes

theorem owed_to {q : ObjectRef} (listed : (q, f) ∈ owed) : q = target := by
  apply keptOnce.only
  rw [owes]
  exact List.mem_map_of_mem (List.mem_filter.mpr ⟨listed, decide_eq_true rfl⟩)

theorem count_owed (among : ObjectRef → Bool) :
    ((owed.filter fun d => among d.1).map Prod.snd).count f = if among target then 1 else 0 := by
  have counted (p : ObjectRef → Bool) : ((owed.filter fun d => p d.1).map Prod.snd).count f =
      owed.countP fun d => d.2 == f && p d.1 := by
    rw [List.count, List.countP_map, List.countP_filter]
    rfl
  rw [counted]
  split
  · rename_i included
    have once := keptOnce.once
    rw [owes, counted fun q => decide (q = target)] at once
    refine Eq.trans (List.countP_congr fun d listed => ?_) once
    simp only [Bool.and_eq_true, beq_iff_eq, decide_eq_true_eq]
    refine and_congr_right fun same => ?_
    obtain ⟨q, g⟩ := d
    have at_target : q = target := keptOnce.owed_to owes (same ▸ listed)
    exact ⟨fun _ => at_target, fun _ => at_target ▸ included⟩
  · rename_i spared
    rw [List.countP_eq_zero]
    rintro ⟨q, g⟩ listed both
    obtain ⟨same, included⟩ := Bool.and_eq_true_iff.mp both
    obtain rfl : g = f := eq_of_beq same
    rw [keptOnce.owed_to owes listed] at included
    exact spared included

end Collector.KeepsOnce

namespace Session
variable {i : Nat} {s : Session} {owed defined : List (ObjectRef × Finalizer)}
variable {ran : List Finalizer} {c : Collector} {op : Op} {q : ObjectRef}

theorem Remains.live {ops : List Op} (remains : s.Remains i q ops) : s.isLiveIn i q = true := by
  cases ops with
  | nil => exact remains
  | cons op rest => exact remains.1

theorem Remains.last {ops : List Op} (remains : s.Remains i q ops) :
    (s.after ops).isLiveIn i q = true := by
  induction ops generalizing s with
  | nil => exact remains
  | cons op rest ih => exact ih remains.2.2

theorem heap?_of_gone (live : s.isLiveIn i q = true)
    (dead : (s.perform op).1.isLiveIn i q = false) : op.heap? = some i := by
  by_contra elsewhere
  obtain ⟨c, here, _⟩ := isLiveIn_iff.mp live
  have same := collector?_perform_of_ne elsewhere fun _ _ =>
    Nat.ne_of_lt (s.lt_size_of_collector? here)
  unfold isLiveIn at live dead
  rw [same] at dead
  exact nomatch dead.symm.trans live

namespace RunBalance
variable (runBalance : RunBalance i owed defined ran s) (here : s.collector? i = some c)
variable (unscripted : op.scripts i = false)
include runBalance here unscripted

theorem stays (live : (s.perform op).1.isLiveIn i q = true) {c' : Collector}
    (there : (s.perform op).1.collector? i = some c') :
    c.heap.pendingOf q <+: c'.heap.pendingOf q := by
  rw [(runBalance.there c here).owes, ((runBalance.perform unscripted).there c' there).owes]
  unfold owedAfter
  rw [List.filter_filter]
  have same : ((owed ++ s.acceptedBy i op).filter fun d =>
      decide (d.1 = q) && (s.perform op).1.isLiveIn i d.1) =
        (owed ++ s.acceptedBy i op).filter fun d => d.1 = q := by
    refine List.filter_congr fun d _ => ?_
    by_cases named : d.1 = q
    · rw [named, live, Bool.and_true]
    · rw [decide_eq_false named, Bool.false_and]
  rw [same, List.filter_append, List.map_append]
  exact List.prefix_append _ _

omit unscripted in
theorem closes : ShutdownRuns i s (s.perform (.shutDown i)).1 c.heap.config.teardown owed := by
  have heapBalance := runBalance.there c here
  change ShutdownRuns i s (s.shutDown i) c.heap.config.teardown owed
  rw [shutDown_eq here]
  exact closing s i heapBalance.sound heapBalance.owes (List.mergeSort_perm _ _)

theorem falls (work : op.heap? = some i)
    (fires : op = .shutDown i → c.heap.config.teardown = .fire) :
    ∃ due : List Finalizer, (s.perform op).1.runs = s.runs ++ due.toArray ∧
      due.Perm ((s.dueIn i owed op).map Prod.snd) := by
  by_cases shuts : op = .shutDown i
  · subst shuts
    have closes := runBalance.closes here
    obtain ⟨due, all, runs⟩ := closes.fired (fires rfl)
    refine ⟨due, runs, ?_⟩
    have nothing : s.acceptedBy i (.shutDown i) = [] := if_pos rfl
    have all_due : s.dueIn i owed (.shutDown i) = owed := by
      unfold dueIn isLiveIn
      rw [nothing, closes.gone, List.append_nil]
      exact List.filter_eq_self.mpr fun _ _ => rfl
    rw [all_due]
    exact all
  · obtain ⟨fell, opRuns⟩ := runBalance.opRuns work (fun same => absurd same shuts) unscripted
    exact ⟨fell.map Prod.snd, opRuns.runs, opRuns.due.map Prod.snd⟩

theorem falls_of_gone (live : s.isLiveIn i q = true)
    (dead : (s.perform op).1.isLiveIn i q = false)
    (fires : op = .shutDown i → c.heap.config.teardown = .fire) :
    ∃ due : List Finalizer, (s.perform op).1.runs = s.runs ++ due.toArray ∧
      (c.heap.pendingOf q).Subperm due := by
  obtain ⟨due, runs, all⟩ := runBalance.falls here unscripted (heap?_of_gone live dead) fires
  refine ⟨due, runs, all.subperm_left.mpr (List.Sublist.subperm ?_)⟩
  rw [(runBalance.there c here).owes, dueIn, List.filter_append]
  refine (List.Sublist.trans ?_ (List.sublist_append_left _ _)).map Prod.snd
  refine List.monotone_filter_right owed fun d named => ?_
  rw [of_decide_eq_true named, dead]
  rfl

omit unscripted in
theorem stays_run {later : List Op} (unscripted : ∀ op ∈ later, op.scripts i = false)
    (remains : s.Remains i q later) {c' : Collector}
    (there : (s.after later).collector? i = some c') :
    c.heap.pendingOf q <+: c'.heap.pendingOf q := by
  induction later generalizing s c owed defined ran with
  | nil =>
    cases here.symm.trans there
    exact List.prefix_refl _
  | cons op rest ih =>
    have plain := unscripted op List.mem_cons_self
    have live := remains.2.2.live
    obtain ⟨d, between, _⟩ := isLiveIn_iff.mp live
    exact (runBalance.stays here plain live between).trans (ih (runBalance.perform plain) between
      (fun one listed => unscripted one (List.mem_cons_of_mem _ listed)) remains.2.2 there)

end RunBalance

/-- A callback is kept on an object of heap `i`, and has not run. -/
structure Pends (i : Nat) (f : Finalizer) (target : ObjectRef) (s : Session) : Prop where
  inHeap : ∃ kind, KeptInHeap i f kind target ⟨s, none, [], []⟩
  unran : s.runs.count f = 0

theorem perform_alloc_moves (s : Session) (j : Nat) (kind : ObjectKind) :
    (s.perform (.alloc j kind)).1 = s ∨ ((s.perform (.alloc j kind)).1.runs = s.runs ∧
      Move .alloc ⟨s, none, [], []⟩ ⟨(s.perform (.alloc j kind)).1, none, [], []⟩) := by
  cases here : s.collector? j with
  | none =>
    rw [perform_alloc_of_gone here]
    exact Or.inl rfl
  | some c =>
    rcases perform_alloc_cases here kind with ⟨heap, r, allocated, done⟩ | ⟨e, failed⟩
    · rw [done]
      exact Or.inr ⟨rfl, .alloc ⟨s, none, [], []⟩ here rfl allocated⟩
    · rw [failed]
      exact Or.inl rfl

/-- After these operations the object is still there, and the next operation ends it. -/
structure GoesIn (i : Nat) (target : ObjectRef) (s : Session) (pre : List Op) (op : Op) : Prop where
  remains : s.Remains i target pre
  gone : ((s.after pre).perform op).1.isLiveIn i target = false

/-- What becomes in a run of all that is pending on an object of heap `i`. -/
structure Honours (i : Nat) (target : ObjectRef) (s : Session) (later : List Op) : Prop where
  /-- While the object is there it stays pending, each finalizer at its place. -/
  stays : s.Remains i target later → ∀ c c', s.collector? i = some c →
    (s.after later).collector? i = some c' → c.heap.pendingOf target <+: c'.heap.pendingOf target
  /-- In the operation that ends the object all of it runs, unless it is dropped with the heap. -/
  falls : ∀ pre op post c, later = pre ++ op :: post → GoesIn i target s pre op →
    (s.after pre).collector? i = some c → (op = .shutDown i → c.heap.config.teardown = .fire) →
    ∃ due : List Finalizer, ((s.after pre).perform op).1.runs = (s.after pre).runs ++ due.toArray ∧
      (c.heap.pendingOf target).Subperm due

/-- What becomes in a run of a callback that is pending on an object of heap `i`. -/
structure RunsOnce (i : Nat) (f : Finalizer) (target : ObjectRef) (s : Session) (later : List Op) :
    Prop where
  waits : s.Remains i target later → f ∉ (s.after later).runs ∧
    ∃ c, (s.after later).collector? i = some c ∧ f ∈ c.heap.pendingOf target
  /-- It runs in the operation that ends the object, and never again. -/
  runs : ∀ pre op post c, later = pre ++ op :: post → GoesIn i target s pre op →
    (s.after pre).collector? i = some c → (op = .shutDown i → c.heap.config.teardown = .fire) →
    f ∉ (s.after pre).runs ∧ ((s.after pre).perform op).1.runs.count f = 1 ∧
      (s.after later).runs.count f = 1
  /-- A heap that is shut down may drop it. -/
  dropped : ∀ pre post c, later = pre ++ .shutDown i :: post → s.Remains i target pre →
    (s.after pre).collector? i = some c → c.heap.config.teardown = .drop →
    f ∉ (s.after later).runs

theorem RunBalance.honours (runBalance : RunBalance i owed defined ran s) {later : List Op}
    (unscripted : ∀ op ∈ later, op.scripts i = false) : Honours i q s later := by
  refine ⟨fun remains c c' here there => runBalance.stays_run here unscripted remains there, ?_⟩
  intro pre op post c split goes here fires
  subst split
  have before := runBalance.run fun op listed => unscripted op (List.mem_append_left _ listed)
  have plain := unscripted op (List.mem_append_right _ List.mem_cons_self)
  exact before.falls_of_gone here plain goes.remains.last goes.gone fires

section Life
variable {label : String} {actions : List Action} {target : ObjectRef}
variable (pends : Pends i (.user label actions) target s)
include pends

theorem Pends.live : s.isLiveIn i target = true := by
  obtain ⟨kind, inHeap⟩ := pends.inHeap
  exact inHeap.isLiveIn

theorem Pends.perform (ownership : Ownership ⟨s, none, [], []⟩)
    (other : op.defines? ≠ some (.user label actions))
    (live : (s.perform op).1.isLiveIn i target = true) :
    Pends i (.user label actions) target (s.perform op).1 := by
  obtain ⟨kind, inHeap⟩ := pends.inHeap
  by_cases allocates : ∃ j made, op = .alloc j made
  · obtain ⟨j, made, rfl⟩ := allocates
    rcases s.perform_alloc_moves j made with same | ⟨runs, move⟩
    · exact same.symm ▸ pends
    · have still := (move.inHeap ownership.heaps inHeap nofun fun _ => nofun).stays live
      exact ⟨⟨kind, still⟩, runs ▸ pends.unran⟩
  · have kept : (KeptInHeap i (.user label actions) kind target ⟨(s.perform op).1, none, [], []⟩ ∧
        (s.perform op).1.runs.count (.user label actions) = 0) ∨
          (s.perform op).1.isLiveIn i target = false := by
      refine (perform_moves_of_ownership ownership op).keeps ownership
        (I := fun m => (KeptInHeap i (.user label actions) kind target m ∧
          m.session.runs.count (.user label actions) = 0) ∨ m.session.isLiveIn i target = false) ?_
        (Or.inl ⟨inHeap, pends.unran⟩)
      intro t m m' allowed ownership move stands
      rcases stands with ⟨inHeap, unran⟩ | gone
      · cases there : m'.session.isLiveIn i target with
        | false => exact Or.inr rfl
        | true =>
          have becomes := move.inHeap ownership.heaps inHeap (allowed.old other) fun _ => nofun
          exact Or.inl ⟨becomes.stays there, (move.count_runs inHeap.rests).trans unran⟩
      · refine Or.inr (move.gone_stays ownership.heaps ?_ gone)
        rintro rfl
        cases allowed with
        | alloc same => exact allocates ⟨_, _, same⟩
    rcases kept with ⟨still, unran⟩ | gone
    · exact ⟨⟨kind, still⟩, unran⟩
    · exact nomatch gone.symm.trans live

theorem Pends.run (ownership : Ownership ⟨s, none, [], []⟩) {later : List Op}
    (others : ∀ op ∈ later, op.defines? ≠ some (.user label actions))
    (remains : s.Remains i target later) :
    Pends i (.user label actions) target (s.after later) := by
  induction later generalizing s with
  | nil => exact pends
  | cons op rest ih =>
    have still := pends.perform ownership (others op List.mem_cons_self) remains.2.2.live
    exact ih still (ownership_perform ownership op)
      (fun one listed => others one (List.mem_cons_of_mem _ listed)) remains.2.2

section Ending
variable (runBalance : RunBalance i owed defined ran s) (unscripted : op.scripts i = false)
variable (other : op.defines? ≠ some (.user label actions))
variable (dead : (s.perform op).1.isLiveIn i target = false)
include runBalance unscripted other dead

theorem Pends.let_go : ¬ Moment.Awaits ⟨(s.perform op).1, none, [], []⟩ (.user label actions) := by
  obtain ⟨kind, inHeap⟩ := pends.inHeap
  obtain ⟨c, here, keptOnce⟩ := inHeap.keptBy
  have work := heap?_of_gone pends.live dead
  rintro (⟨j, d, there, kept⟩ | flies)
  · by_cases own : j = i
    · subst own
      have heapBalance := (runBalance.perform unscripted).there d there
      rcases kept with stashed | ⟨q, pending⟩
      · rw [heapBalance.plain.stash] at stashed
        cases stashed
      · rw [heapBalance.owes] at pending
        obtain ⟨⟨r, f⟩, listed, rfl⟩ := List.mem_map.mp pending
        obtain ⟨listed, live⟩ := List.mem_filter.mp (List.mem_filter.mp listed).1
        rcases List.mem_append.mp listed with before | accepted
        · rw [keptOnce.owed_to (runBalance.there c here).owes before] at live
          exact nomatch dead.symm.trans live
        · rw [acceptedBy, if_pos work] at accepted
          exact other (defines_of_accepted accepted)
    · have same : (s.perform op).1.collector? j = s.collector? j := by
        refine collector?_perform_of_ne (fun its => own ?_) ?_
        · exact (Option.some.inj (work.symm.trans its)).symm
        · rintro config rfl
          cases work
      rcases kept with stashed | ⟨q, pending⟩
      · exact inHeap.stash j d (same.symm.trans there) stashed
      · exact inHeap.alone j d (same.symm.trans there) own q pending
  · cases flies

theorem Pends.ends (here : s.collector? i = some c)
    (fires : op = .shutDown i → c.heap.config.teardown = .fire) :
    Ran (.user label actions) 1 ⟨(s.perform op).1, none, [], []⟩ := by
  refine ⟨pends.let_go runBalance unscripted other dead, ?_⟩
  have work := heap?_of_gone pends.live dead
  obtain ⟨due, runs, all⟩ := runBalance.falls here unscripted work fires
  obtain ⟨kind, inHeap⟩ := pends.inHeap
  obtain ⟨d, there, keptOnce⟩ := inHeap.keptBy
  cases here.symm.trans there
  have accepted : (((s.acceptedBy i op).filter fun d =>
      !(s.perform op).1.isLiveIn i d.1).map Prod.snd).count (.user label actions) = 0 := by
    rw [List.count_eq_zero, acceptedBy, if_pos work]
    intro listed
    obtain ⟨⟨r, f⟩, listed, rfl⟩ := List.mem_map.mp listed
    exact other (defines_of_accepted (List.mem_filter.mp listed).1)
  change (s.perform op).1.runs.count _ = 1
  rw [runs, Array.count_append, pends.unran, List.count_toArray, all.count_eq, dueIn,
    List.filter_append, List.map_append, List.count_append, accepted,
    keptOnce.count_owed (runBalance.there c here).owes fun q =>
      !(s.perform op).1.isLiveIn i q, dead]
  rfl

end Ending

theorem Pends.dropped (runBalance : RunBalance i owed defined ran s)
    (here : s.collector? i = some c) (drop : c.heap.config.teardown = .drop) :
    Ran (.user label actions) 0 ⟨(s.perform (.shutDown i)).1, none, [], []⟩ := by
  have closes := runBalance.closes here
  have dead : (s.perform (.shutDown i)).1.isLiveIn i target = false :=
    isLiveIn_eq_false_iff.mpr fun d there => nomatch closes.gone.symm.trans there
  refine ⟨pends.let_go runBalance rfl nofun dead, ?_⟩
  exact (congrArg (Array.count _) (closes.dropped drop)).trans pends.unran

theorem Pends.runsOnce (runBalance : RunBalance i owed defined ran s) {later : List Op}
    (unscripted : ∀ op ∈ later, op.scripts i = false)
    (others : ∀ op ∈ later, op.defines? ≠ some (.user label actions)) :
    RunsOnce i (.user label actions) target s later := by
  have waits {pre : List Op} (sub : ∀ op ∈ pre, op ∈ later) (remains : s.Remains i target pre) :
      Pends i (.user label actions) target (s.after pre) :=
    pends.run runBalance.ownership (fun op listed => others op (sub op listed)) remains
  have first {pre post : List Op} {op : Op} (split : later = pre ++ op :: post) :
      (∀ one ∈ pre, one ∈ later) ∧ op ∈ later ∧ ∀ one ∈ post, one ∈ later := by
    subst split
    exact ⟨fun _ => List.mem_append_left _, List.mem_append_right _ List.mem_cons_self,
      fun _ listed => List.mem_append_right _ (List.mem_cons_of_mem _ listed)⟩
  have settled {pre post : List Op} {op : Op} {times : Nat} (split : later = pre ++ op :: post)
      (done : Ran (.user label actions) times ⟨((s.after pre).perform op).1, none, [], []⟩) :
      (s.after later).runs.count (.user label actions) = times := by
    have ownership := ownership_perform (ownership_run runBalance.ownership pre) op
    rw [split, after_append, after_cons]
    exact (done.run ownership fun one listed => others one ((first split).2.2 one listed)).count
  refine ⟨fun remains => ?_, fun pre op post c split goes here fires => ?_, ?_⟩
  · have still := waits (fun _ => id) remains
    obtain ⟨kind, inHeap⟩ := still.inHeap
    obtain ⟨c, there, keptOnce⟩ := inHeap.keptBy
    exact ⟨Array.count_eq_zero.mp still.unran, c, there, keptOnce.mem⟩
  · obtain ⟨sub, listed, _⟩ := first split
    have still := waits sub goes.remains
    have before := runBalance.run fun op listed => unscripted op (sub op listed)
    have done := still.ends before (unscripted op listed) (others op listed) goes.gone here fires
    exact ⟨Array.count_eq_zero.mp still.unran, done.count, settled split done⟩
  · intro pre post c split remains here drop
    obtain ⟨sub, _, _⟩ := first split
    have before := runBalance.run fun op listed => unscripted op (sub op listed)
    exact Array.count_eq_zero.mp (settled split ((waits sub remains).dropped before here drop))

end Life

theorem Pends.of_kept {label : String} {actions : List Action}
    (quiet : Ran (.user label actions) 0 ⟨s, none, [], []⟩) (here : s.collector? i = some c)
    (plain : c.IsPlain) {heap : Heap Finalizer} {a : Affiliation}
    (kept : c.heap.define q (.user label actions) = .kept heap a) :
    Pends i (.user label actions) q (s.setCollector i { c with heap }) where
  inHeap := ⟨a.kind, .of_kept here kept quiet.rests (by rw [plain.advance]; rfl) List.not_mem_nil⟩
  unran := quiet.count

end Session

end WeakRefs
