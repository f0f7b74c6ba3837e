import Mathlib.Data.List.Infix
import WeakRefs.Proofs.HeapCourse
import WeakRefs.Proofs.PinsAcrossHeaps

/-!
# Which heap a binding is of

A binding knows its heap by the runtime and by the pin set. Both tell the same heap, and neither is
handed out again.
-/

namespace WeakRefs

/-- Where the heap of a binding is there, its runtime and its pin set tell it alike. -/
structure PinsMatchRuntime (m : Moment) : Prop where
  made : ∀ p a b, m.held p = some a → a.binding = some b → b.pins < m.session.pinSets.size
  pairs : ∀ p a b k c, m.held p = some a → a.binding = some b →
    m.session.collector? k = some c → (b.pins = c.heap.pins ↔ b.runtime = c.heap.runtime)

namespace PinsMatchRuntime
variable {i : Nat} {m m' : Moment} {t : Tag}

theorem move (pinsMatch : PinsMatchRuntime m) (boundKept : BoundKept i m) (apart : PinsApart m)
    (move : Move t m m') : PinsMatchRuntime m' where
  made p a b held binding := by
    have grown := move.size_pinSets_le
    rcases move.binding_cases boundKept.ownership held binding with
      ⟨q, before⟩ | ⟨j, c, x, _, here, _, _, pins, _⟩
    · exact Nat.lt_of_lt_of_le (pinsMatch.made q a b before binding) grown
    · rw [pins]
      exact Nat.lt_of_lt_of_le (apart.made j c here) grown
  pairs p a b k c' held binding there := by
    rcases move.binding_cases boundKept.ownership held binding with
      ⟨q, before⟩ | ⟨j, d, x, tag, here, _, runtime, pins, _⟩
    · rcases move.evolves.descends there with ⟨c, here, becomes⟩ | ⟨_, _, config, new⟩
      · rw [becomes.pins, becomes.runtime]
        exact pinsMatch.pairs q a b k c before binding here
      · have old_pins := pinsMatch.made q a b before binding
        have old_runtime := boundKept.issued q a b before binding
        rw [new]
        constructor
        · intro same
          exact absurd same (Nat.ne_of_lt old_pins)
        · intro same
          rw [same] at old_runtime
          exact absurd old_runtime (Nat.not_succ_le_self _)
    · rcases move.evolves.descends there with ⟨c, here', becomes⟩ | ⟨new, _⟩
      · rw [becomes.pins, becomes.runtime, pins, runtime]
        constructor
        · intro same
          have one := apart.apart j k d c here here' same
          subst one
          rw [here] at here'
          cases here'
          rfl
        · intro same
          have one := boundKept.apart j k d c here here' same
          subst one
          rw [here] at here'
          cases here'
          rfl
      · rw [new] at tag
        cases tag

theorem empty : PinsMatchRuntime ⟨{}, none, [], []⟩ := by
  constructor
  · intro p a b held
    cases p <;> simp [Moment.held, Session.ref?, Session.entry?, Session.map?] at held
  · intro p a b k c held
    cases p <;> simp [Moment.held, Session.ref?, Session.entry?, Session.map?] at held

end PinsMatchRuntime

/-- What holds from the empty session on as long as no heap has a script. -/
structure ScriptFree (m : Moment) : Prop where
  boundKept : ∀ k, BoundKept k m
  issued : Issued m
  apart : PinsApart m
  pinsMatch : PinsMatchRuntime m

namespace ScriptFree

section Moves
variable {m m' : Moment} {t : Tag}

theorem ownership (scriptFree : ScriptFree m) : Ownership m := (scriptFree.boundKept 0).ownership

theorem move (scriptFree : ScriptFree m) (move : Move t m m') (plain : ∀ k, t ≠ .script k) :
    ScriptFree m' where
  boundKept k := (scriptFree.boundKept k).move move (plain k)
  issued := scriptFree.issued.move scriptFree.ownership move
  apart := scriptFree.apart.move move
  pinsMatch := scriptFree.pinsMatch.move (scriptFree.boundKept 0) scriptFree.apart move

/-- The moves of an operation that scripts no heap keep order. -/
theorem run {s : Session} {op : Op} (scriptFree : ScriptFree m) (moves : Moves (s.Allows op) m m')
    (plain : ∀ k, op.scripts k = false) : ScriptFree m' :=
  moves.preserves (fun allowed move scriptFree =>
    scriptFree.move move fun k => Session.unscripted_of_allows (plain k) allowed) scriptFree

end Moves

variable {s : Session}

theorem perform (scriptFree : ScriptFree ⟨s, none, [], []⟩) {op : Op}
    (plain : ∀ k, op.scripts k = false) :
    ScriptFree ⟨(s.perform op).1, none, [], []⟩ :=
  scriptFree.run (Session.perform_moves_of_ownership scriptFree.ownership op) plain

theorem after {ops : List Op} (scriptFree : ScriptFree ⟨s, none, [], []⟩)
    (plain : ∀ op ∈ ops, ∀ k, op.scripts k = false) : ScriptFree ⟨s.after ops, none, [], []⟩ := by
  induction ops generalizing s with
  | nil => exact scriptFree
  | cons op rest ih =>
    exact ih (scriptFree.perform (plain op List.mem_cons_self))
      fun op later => plain op (List.mem_cons_of_mem _ later)

theorem empty : ScriptFree ⟨{}, none, [], []⟩ := ⟨fun _ => .empty, .empty, .empty, .empty⟩

end ScriptFree

/-- The runtime and the pin set of a heap that is there no more: no heap that is there, or still to
come, is of this runtime or has this pin set. -/
structure Gone (x : InstanceId) (P : Nat) (s : Session) : Prop where
  made : P < s.pinSets.size
  issued : x.raw ≤ s.runtimes
  pins : ∀ k c, s.collector? k = some c → c.heap.pins ≠ P
  runtime : ∀ k c, s.collector? k = some c → c.heap.runtime ≠ x

namespace Gone
variable {x : InstanceId} {P : Nat} {m m' : Moment} {t : Tag}

theorem move (gone : Gone x P m.session) (move : Move t m m') : Gone x P m'.session where
  made := Nat.lt_of_lt_of_le gone.made move.size_pinSets_le
  issued := Nat.le_trans gone.issued move.runtimes_le
  pins k c there := by
    rcases move.evolves.descends there with ⟨d, here, becomes⟩ | ⟨_, _, config, new⟩
    · rw [becomes.pins]
      exact gone.pins k d here
    · rw [new]
      exact Nat.ne_of_gt gone.made
  runtime k c there := by
    rcases move.evolves.descends there with ⟨d, here, becomes⟩ | ⟨_, _, config, new⟩
    · rw [becomes.runtime]
      exact gone.runtime k d here
    · intro same
      have issued := gone.issued
      rw [← same, new] at issued
      exact absurd issued (Nat.not_succ_le_self _)

theorem after {s : Session} (gone : Gone x P s) (ownership : Ownership ⟨s, none, [], []⟩)
    (ops : List Op) : Gone x P (s.after ops) :=
  Session.after_keeps ownership (I := fun m => Gone x P m.session)
    (fun _ _ _ _ _ _ _ _ move gone => gone.move move) gone

end Gone

namespace Session
variable {s : Session} {i : Nat} {x : InstanceId} {P : Nat} {ops : List Op}

def Knows (s : Session) (i : Nat) (x : InstanceId) (P : Nat) : Prop :=
  ∀ c, s.collector? i = some c → c.heap.runtime = x ∧ c.heap.pins = P

theorem Knows.move {m m' : Moment} {t : Tag} (knows : m.session.Knows i x P) (move : Move t m m')
    (old : t ≠ .newHeap ∨ i < m.session.collectors.size) : m'.session.Knows i x P := by
  intro c there
  rcases move.evolves.descends there with ⟨d, here, becomes⟩ | ⟨new, last, _⟩
  · rw [becomes.runtime, becomes.pins]
    exact knows d here
  · rcases old with other | inside
    · exact absurd new other
    · exact absurd last (Nat.ne_of_lt inside)

theorem knows_after (ownership : Ownership ⟨s, none, [], []⟩) (inside : i < s.collectors.size)
    (knows : s.Knows i x P) (ops : List Op) : (s.after ops).Knows i x P := by
  have both : i < (s.after ops).collectors.size ∧ (s.after ops).Knows i x P := by
    refine after_keeps ownership (I := fun m => i < m.session.collectors.size ∧
      m.session.Knows i x P) ?_ ⟨inside, knows⟩
    intro _ _ _ t m m' _ _ move both
    exact ⟨Nat.lt_of_lt_of_le both.1 move.evolves.size_le, both.2.move move (Or.inr both.1)⟩
  exact both.2

/-- A heap that is there at the end of a run was itself all the time. -/
theorem knows_before {c : Collector} (here : (Session.after {} ops).collector? i = some c)
    {before : List Op} (part : before <+: ops) :
    (Session.after {} before).Knows i c.heap.runtime c.heap.pins := by
  obtain ⟨rest, whole⟩ := part
  intro d there
  have kept := knows_after (ownership_after before) (lt_size_of_collector? _ there)
    (x := d.heap.runtime) (P := d.heap.pins) (fun e same => by
      rw [there] at same
      cases same
      exact ⟨rfl, rfl⟩) rest
  rw [← after_append, whole] at kept
  obtain ⟨runtime, pins⟩ := kept c here
  exact ⟨runtime.symm, pins.symm⟩

/-- The handle that an operation binds, with the heap through which it does. -/
def bindings (s : Session) (op : Op) : List (HandleId × Nat) :=
  match s.boundBy? op, op.target? with
  | some bound, some target => [(bound.1, target.1)]
  | _, _ => []

/-- Whether a run binds a handle through heap `i` only. -/
def BindsThrough (s : Session) (i : Nat) (h : HandleId) (ops : List Op) : Prop :=
  ∀ e ∈ trace bindings s ops, e.1 = h → e.2 = i

theorem BindsThrough.cons {h : HandleId} {op : Op} (through : s.BindsThrough i h (op :: ops)) :
    (∀ t, s.binds? op h = some t → op.bindsThrough i = true) ∧
      (s.perform op).1.BindsThrough i h ops := by
  refine ⟨fun t binds => ?_, fun e listed => through e (List.mem_append_right _ listed)⟩
  have bound := boundBy?_of_binds? binds
  obtain ⟨j, target⟩ := target?_of_boundBy? bound
  have listed : (h, j) ∈ s.bindings op := by
    unfold bindings
    rw [bound, target]
    exact List.mem_singleton.mpr rfl
  have same := through (h, j) (List.mem_append_left _ listed) rfl
  unfold Op.bindsThrough
  rw [target]
  exact decide_eq_true same

theorem BindsThrough.at_prefix {h : HandleId} {op : Op} {before : List Op}
    (through : s.BindsThrough i h ops) (part : before ++ [op] <+: ops) :
    ∀ t, (s.after before).binds? op h = some t → op.bindsThrough i = true := by
  obtain ⟨rest, whole⟩ := part
  rw [List.append_assoc] at whole
  have later : (s.after before).BindsThrough i h (op :: rest) := by
    intro e listed
    refine through e ?_
    rw [← whole, trace_append]
    exact List.mem_append_right _ listed
  exact later.cons.1

end Session

/-- Whoever has a handle and a binding is bound against this runtime, with its pin in this pin set.
-/
def BoundTo (h : HandleId) (x : InstanceId) (P : Nat) (m : Moment) : Prop :=
  ∀ p a b, m.held p = some a → a.id = h → a.binding = some b → b.runtime = x ∧ b.pins = P

namespace BoundTo
variable {h : HandleId} {x : InstanceId} {P i : Nat} {m m' : Moment} {t : Tag}

theorem move (boundTo : BoundTo h x P m) (ownership : Ownership m) (move : Move t m m')
    (known : ∀ j c v, t = .bind j h v → m.session.collector? j = some c →
      c.heap.runtime = x ∧ c.heap.pins = P) : BoundTo h x P m' := by
  intro p a b held named binding
  rcases move.binding_cases ownership held binding with
    ⟨q, before⟩ | ⟨j, c, v, tag, here, _, runtime, pins, _⟩
  · exact boundTo q a b before named binding
  · rw [runtime, pins]
    rw [named] at tag
    exact known j c v tag here

variable {s : Session} {ops : List Op}

theorem perform (boundTo : BoundTo h x P ⟨s, none, [], []⟩)
    (ownership : Ownership ⟨s, none, [], []⟩) (knows : s.Knows i x P) {op : Op}
    (through : ∀ v, s.binds? op h = some v → op.bindsThrough i = true) :
    BoundTo h x P ⟨(s.perform op).1, none, [], []⟩ := by
  have moves := Session.perform_moves_of_ownership ownership op
  by_cases lost : h = s.freshHandle.2 ∧ s.binds? op h = none ∧ op.target? ≠ none
  · -- The handle was made for a binding that failed.
    obtain ⟨fresh, unbound, works⟩ := lost
    obtain ⟨target, works⟩ := Option.ne_none_iff_exists'.mp works
    intro p a b held named
    rw [fresh] at unbound
    have other := Session.nobody_of_unbound ownership (i := target.1) (t := target.2) works unbound
      ((Moment.held_atRest _ p).symm.trans held)
    exact absurd (named.trans fresh) other
  · have both : (op.target? ≠ none → (s.perform op).1.Knows i x P) ∧
        BoundTo h x P ⟨(s.perform op).1, none, [], []⟩ := by
      refine moves.keeps ownership (I := fun m => (op.target? ≠ none → m.session.Knows i x P) ∧
        BoundTo h x P m) ?_ ⟨fun _ => knows, boundTo⟩
      intro tag m m' allowed ownership move both
      obtain ⟨knows, boundTo⟩ := both
      refine ⟨fun works => (knows works).move move (Or.inl fun new => ?_),
        boundTo.move ownership move fun j c v same here => ?_⟩
      · rw [new] at allowed
        cases allowed with
        | newHeap opens =>
          rw [opens] at works
          exact works rfl
      · rw [same] at allowed
        have target := Session.target?_of_allows allowed
        have binds : ∃ w, s.binds? op h = some w := by
          cases allowed with
          | bind bound _ => exact ⟨v, Session.binds?_of_boundBy? bound⟩
          | fresh _ =>
            refine Option.ne_none_iff_exists'.mp fun unbound => lost ⟨rfl, unbound, ?_⟩
            rw [target]
            nofun
        obtain ⟨w, binds⟩ := binds
        have this_heap := through w binds
        unfold Op.bindsThrough at this_heap
        rw [target] at this_heap
        have one : j = i := of_decide_eq_true this_heap
        refine knows ?_ c (one ▸ here)
        rw [target]
        nofun
    exact both.2

theorem run (boundTo : BoundTo h x P ⟨s, none, [], []⟩) (ownership : Ownership ⟨s, none, [], []⟩)
    (knows : ∀ before, before <+: ops → (s.after before).Knows i x P)
    (through : s.BindsThrough i h ops) : BoundTo h x P ⟨s.after ops, none, [], []⟩ := by
  induction ops generalizing s with
  | nil => exact boundTo
  | cons op rest ih =>
    obtain ⟨now, later⟩ := through.cons
    have first := boundTo.perform ownership (knows [] List.nil_prefix) now
    exact ih first (Session.ownership_perform ownership op)
      (fun before part => knows (op :: before) (List.cons_prefix_cons.mpr ⟨rfl, part⟩)) later

theorem empty : BoundTo h x P ⟨{}, none, [], []⟩ := by
  intro p a b held
  cases p <;> simp [Moment.held, Session.ref?, Session.entry?, Session.map?] at held

end BoundTo

end WeakRefs
