import WeakRefs.Proofs.HeapCourse

/-!
# Which runtimes are alive

The registry of runtimes can be read off the hooks of the host, the creations of heaps and their
shutdowns: the last of these decides.
-/

namespace WeakRefs

/-- What happened to a runtime. -/
inductive Lifecycle where
  | initialized (runtime : InstanceId)
  | tornDown (runtime : InstanceId)
  deriving DecidableEq

namespace Lifecycle

def runtime : Lifecycle → InstanceId
  | initialized x | tornDown x => x

def isInitialized : Lifecycle → Bool
  | initialized _ => true
  | tornDown _ => false

theorem eq_initialized_iff (e : Lifecycle) (x : InstanceId) :
    e = .initialized x ↔ e.runtime = x ∧ e.isInitialized = true := by
  cases e <;> simp [runtime, isInitialized]

end Lifecycle

namespace Session

/-- The events of runtimes in an operation: a hook, the creation of a heap, or the shutdown of a
heap that is there. -/
def lifecycle (s : Session) : Op → List Lifecycle
  | .newHeap _ => [.initialized s.freshRuntime.2]
  | .shutDown i => ((s.collector? i).map fun c => .tornDown c.heap.runtime).toList
  | .initialized x => [.initialized x]
  | .tornDown x => [.tornDown x]
  | _ => []

/-- The last event of a runtime in a run from the empty session. -/
def lastOf (x : InstanceId) (ops : List Op) : Option Lifecycle :=
  ((trace lifecycle {} ops).filter fun e => e.runtime = x).getLast?

/-- Whether a runtime was alive before and after each operation of a run. -/
def turns (x : InstanceId) (ops : List Op) : List (Bool × Bool) :=
  trace (fun s op => [(s.isAlive x, (s.perform op).1.isAlive x)]) {} ops

def fallsTold (s : Session) (x : InstanceId) : Nat := s.journal.toList.count (.runtimeTornDown x)

section Registry
variable {s s' : Session} (x : InstanceId)

theorem fallsTold_eq_news (s : Session) : s.fallsTold x = s.news.count (.runtimeTornDown x) :=
  (List.count_filter rfl).symm

theorem fallsTold_of_reports {told : List Event} (news : s'.news = s.news ++ told)
    (about : ∀ e ∈ told, e.handle?.isSome = true) : s'.fallsTold x = s.fallsTold x := by
  have none_told : told.count (.runtimeTornDown x) = 0 := by
    rw [List.count_eq_zero]
    intro listed
    cases about _ listed
  rw [fallsTold_eq_news, fallsTold_eq_news, news, List.count_append, none_told, Nat.add_zero]

theorem isAlive_recordInitialized (s : Session) (y : InstanceId) :
    (s.recordInitialized y).isAlive x = if y = x then true else s.isAlive x := by
  have members : x ∈ s.alive.insert y ↔ x = y ∨ x ∈ s.alive := Roster.mem_insert
  change decide (x ∈ s.alive.insert y) = _
  by_cases same : y = x
  · simp [same]
  · have other : ¬ x = y := fun e => same e.symm
    simp [members, same, other, isAlive]

theorem isAlive_recordTornDown (s : Session) (y : InstanceId) :
    (s.recordTornDown y).isAlive x = if y = x then false else s.isAlive x := by
  unfold recordTornDown
  split
  · have members : x ∈ s.alive.erase y ↔ x ≠ y ∧ x ∈ s.alive := Roster.mem_erase
    change decide (x ∈ s.alive.erase y) = _
    by_cases same : y = x
    · simp [same]
    · have other : ¬ x = y := fun e => same e.symm
      simp [members, same, other, isAlive]
  · rename_i gone
    split
    · rename_i same
      subst same
      simp [isAlive, gone]
    · rfl

theorem fallsTold_recordInitialized (s : Session) (y : InstanceId) :
    (s.recordInitialized y).fallsTold x = s.fallsTold x := by
  simp [fallsTold, recordInitialized, emit]

theorem fallsTold_recordTornDown (s : Session) (y : InstanceId) :
    (s.recordTornDown y).fallsTold x =
      s.fallsTold x + [(s.isAlive x, (s.recordTornDown y).isAlive x)].count (true, false) := by
  rw [isAlive_recordTornDown]
  unfold recordTornDown
  split
  · rename_i alive
    have alive : s.isAlive y = true := decide_eq_true alive
    by_cases same : y = x
    · subst same
      simp [fallsTold, emit, alive]
    · cases s.isAlive x <;> simp [fallsTold, emit, same]
  · rename_i gone
    have gone : s.isAlive y = false := decide_eq_false gone
    by_cases same : y = x
    · subst same
      simp [gone]
    · cases s.isAlive x <;> simp [same]

end Registry

section Steps
variable {s : Session} (ownership : Ownership ⟨s, none, [], []⟩) (x : InstanceId)

/-- What an operation does to the registry, as far as a runtime goes. -/
structure Registers (s s' : Session) (x : InstanceId) (events : List Lifecycle) : Prop where
  isAlive : s'.isAlive x =
    (((events.filter fun e => e.runtime = x).getLast?).map Lifecycle.isInitialized).getD
      (s.isAlive x)
  fallsTold : s'.fallsTold x =
    s.fallsTold x + [(s.isAlive x, s'.isAlive x)].count (true, false)

namespace Registers
variable {s s' : Session} {x : InstanceId}

theorem idle (alive : s'.alive = s.alive) (told : s'.fallsTold x = s.fallsTold x) :
    Registers s s' x [] := by
  have same : s'.isAlive x = s.isAlive x := by
    unfold Session.isAlive
    rw [alive]
  refine ⟨same, ?_⟩
  rw [told, same]
  cases s.isAlive x <;> rfl

theorem of_strides {T : Tag → Prop} {m m' : Moment} (run : Strides T m m') :
    Registers m.session m'.session x [] := by
  obtain ⟨told, news, about⟩ := run.reports
  exact idle run.alive (fallsTold_of_reports x news about)

theorem initialized (s : Session) (y x : InstanceId) :
    Registers s (s.recordInitialized y) x [.initialized y] := by
  have now := isAlive_recordInitialized x s y
  constructor
  · rw [now]
    by_cases same : y = x <;> simp [Lifecycle.runtime, same, Lifecycle.isInitialized]
  · rw [fallsTold_recordInitialized, now]
    cases s.isAlive x <;> simp

theorem tornDown (s : Session) (y x : InstanceId) :
    Registers s (s.recordTornDown y) x [.tornDown y] := by
  refine ⟨?_, fallsTold_recordTornDown x s y⟩
  rw [isAlive_recordTornDown]
  by_cases same : y = x <;> simp [Lifecycle.runtime, same, Lifecycle.isInitialized]

theorem andThen {s'' : Session} {events : List Lifecycle} (first : Registers s s' x events)
    (next : Registers s' s'' x []) : Registers s s'' x events := by
  have same : s''.isAlive x = s'.isAlive x := next.isAlive
  refine ⟨same.trans first.isAlive, ?_⟩
  rw [next.fallsTold, first.fallsTold, same]
  cases s'.isAlive x <;> simp

end Registers

include ownership

theorem registers (op : Op) : Registers s (s.perform op).1 x (s.lifecycle op) := by
  cases plain : op.recordsRuntime with
  | false =>
    have nothing : s.lifecycle op = [] := by
      cases op with
      | newHeap config => cases plain
      | shutDown i => cases plain
      | initialized y => cases plain
      | tornDown y => cases plain
      | _ => rfl
    rw [nothing]
    exact .of_strides (perform_strides_of_ownership ownership plain)
  | true =>
    cases op with
    | newHeap config =>
      have recorded := Registers.initialized { s.freshRuntime.1.newPinSet.1 with
        collectors := s.collectors.push (some { heap :=
          { runtime := s.freshRuntime.2, config, pins := s.pinSets.size } }) } s.freshRuntime.2 x
      exact ⟨recorded.isAlive, recorded.fallsTold⟩
    | shutDown i =>
      change Registers s (s.shutDown i) x ((s.collector? i).map _).toList
      cases here : s.collector? i with
      | none =>
        unfold shutDown
        rw [here]
        exact .idle rfl rfl
      | some c =>
        have all : c.heap.pendingIndirect.Perm c.heap.sideTable.pairs := List.mergeSort_perm _ _
        have strides := shutDownIn_strides (T := s.Allows (.shutDown i)) .always .ref none
          (.shutDown rfl) here all
        rw [shutDown_eq here]
        exact (Registers.tornDown s c.heap.runtime x).andThen (.of_strides strides)
    | initialized y => exact .initialized s y x
    | tornDown y => exact .tornDown s y x
    | _ => cases plain

end Steps

section Runs
variable (x : InstanceId) (ops : List Op)

theorem isAlive_after :
    (Session.after {} ops).isAlive x = ((lastOf x ops).map Lifecycle.isInitialized).getD false := by
  induction ops using List.reverseRecOn with
  | nil => rfl
  | append_singleton ops op ih =>
    have step := (registers (ownership_after ops) x op).isAlive
    rw [after_append]
    refine step.trans ?_
    rw [ih]
    unfold lastOf
    rw [trace_concat, List.filter_append, List.getLast?_append]
    cases (((Session.after {} ops).lifecycle op).filter fun e => e.runtime = x).getLast? <;> rfl

theorem runtime_of_lastOf {e : Lifecycle} (last : lastOf x ops = some e) : e.runtime = x := by
  have listed := List.mem_of_getLast? last
  exact of_decide_eq_true (List.mem_filter.mp listed).2

theorem isAlive_after_iff :
    (Session.after {} ops).isAlive x = true ↔ lastOf x ops = some (.initialized x) := by
  rw [isAlive_after]
  cases last : lastOf x ops with
  | none => simp
  | some e =>
    have about := runtime_of_lastOf x ops last
    simp [Lifecycle.eq_initialized_iff, about]

theorem fallsTold_after :
    (Session.after {} ops).fallsTold x = (turns x ops).count (true, false) := by
  induction ops using List.reverseRecOn with
  | nil => rfl
  | append_singleton ops op ih =>
    have step := (registers (ownership_after ops) x op).fallsTold
    rw [after_append]
    refine step.trans ?_
    unfold turns at ih ⊢
    rw [ih, trace_concat, List.count_append]

end Runs

end Session

/-- The registry of a run and its reports are as the events of the runtimes were. -/
structure Accurate (ops : List Op) : Prop where
  /-- A runtime is alive just if its last event was an initialization. -/
  isAlive : ∀ x, ((Session.after {} ops).perform (.isAlive x)).2 =
    .flag (decide (Session.lastOf x ops = some (.initialized x)))
  /-- Those are counted, each of them once. -/
  aliveCount : ∃ living : List InstanceId, living.Nodup ∧
    (∀ x, x ∈ living ↔ Session.lastOf x ops = some (.initialized x)) ∧
    ((Session.after {} ops).perform .aliveCount).2 = .count living.length
  /-- A runtime is reported as torn down as often as it stopped being alive. -/
  reports : ∀ x, (Session.after {} ops).journal.toList.count (.runtimeTornDown x) =
    (Session.turns x ops).count (true, false)
  /-- Of a runtime that is not alive no fall is reported. -/
  silent : ∀ x op, (Session.after {} ops).isAlive x = false →
    (Session.after {} (ops ++ [op])).journal.toList.count (.runtimeTornDown x) =
      (Session.after {} ops).journal.toList.count (.runtimeTornDown x)
  /-- A heap that was shut down, and is let go of at any time after that, is not shut down again. -/
  once : ∀ i c more, (Session.after {} ops).collector? i = some c →
    (Session.after {} (ops ++ .shutDown i :: more)).perform (.shutDown i) =
      (Session.after {} (ops ++ .shutDown i :: more), .done)
  /-- Events of other runtimes change nothing. -/
  apart : ∀ x op, (∀ e ∈ (Session.after {} ops).lifecycle op, e.runtime ≠ x) →
    (Session.after {} (ops ++ [op])).isAlive x = (Session.after {} ops).isAlive x

namespace Session

theorem collector?_of_closed {s : Session} (ownership : Ownership ⟨s, none, [], []⟩) {i : Nat}
    (inside : i < s.collectors.size) (closed : s.collector? i = none) (ops : List Op) :
    (s.after ops).collector? i = none := by
  have both : i < (s.after ops).collectors.size ∧ (s.after ops).collector? i = none := by
    refine after_keeps ownership (I := fun m => i < m.session.collectors.size ∧
      m.session.collector? i = none) ?_ ⟨inside, closed⟩
    rintro _ _ _ t m m' _ _ move ⟨inside, closed⟩
    refine ⟨Nat.lt_of_lt_of_le inside move.evolves.size_le, ?_⟩
    cases there : m'.session.collector? i with
    | none => rfl
    | some c =>
      rcases move.evolves.descends there with ⟨d, here, _⟩ | ⟨_, last, _⟩
      · cases closed.symm.trans here
      · exact absurd last (Nat.ne_of_lt inside)
  exact both.2

theorem shutDown_again {i : Nat} {c : Collector} {ops : List Op} (more : List Op)
    (here : (Session.after {} ops).collector? i = some c) :
    (Session.after {} (ops ++ .shutDown i :: more)).shutDown i =
      Session.after {} (ops ++ .shutDown i :: more) := by
  have ownership := ownership_after ops
  have inside := Nat.lt_of_lt_of_le (lt_size_of_collector? _ here)
    (size_collectors_perform ownership (.shutDown i))
  have closed := (collector?_shutDown (Session.after {} ops) i i).trans (if_pos rfl)
  have still := collector?_of_closed (ownership_perform ownership (.shutDown i)) inside closed more
  rw [after_append, after_cons]
  generalize ((Session.after {} ops).perform (.shutDown i)).1.after more = t at still
  unfold shutDown
  rw [still]

end Session

/-- Liveness is accurate in every run. -/
theorem liveness_is_accurate (ops : List Op) : Accurate ops := by
  have registers := Session.registers (Session.ownership_after ops)
  refine ⟨?_, ?_, fun x => Session.fallsTold_after x ops, ?_, ?_, ?_⟩
  · intro x
    have same : (Session.after {} ops).isAlive x =
        decide (Session.lastOf x ops = some (.initialized x)) := by
      rw [Bool.eq_iff_iff, Session.isAlive_after_iff, decide_eq_true_iff]
    exact congrArg Reply.flag same
  · refine ⟨(Session.after {} ops).alive.members, (Session.after {} ops).alive.nodup, ?_, rfl⟩
    intro x
    rw [← Session.isAlive_after_iff, Session.isAlive, decide_eq_true_iff]
    rfl
  · intro x op gone
    have told := (registers x op).fallsTold
    rw [Session.after_append]
    refine told.trans ?_
    rw [gone]
    rfl
  · intro i c more here
    exact Prod.ext (Session.shutDown_again more here) rfl
  · intro x op others
    rw [Session.after_append]
    refine (registers x op).isAlive.trans ?_
    have nothing : (((Session.after {} ops).lifecycle op).filter fun e => e.runtime = x) = [] := by
      rw [List.filter_eq_nil_iff]
      intro e listed
      simpa using others e listed
    rw [nothing]
    rfl

end WeakRefs
