import WeakRefs.Proofs.Ending
import WeakRefs.Proofs.Move

/-!
# Strides

A `Stride` is a move, or it is the moves of which one disarms a binding, taken together. So what is
reported of a handle follows from the strides, and what holds of moves holds of them:
`Strides.moves`.
-/

namespace WeakRefs

namespace Event

/-- Whether an event tells how a binding or a runtime began or ended. -/
def isNews : Event → Bool
  | bound _ _ | clearedByFinalizer _ | clearedOnRead _ | disarmed _ | runtimeInitialized _
  | runtimeTornDown _ => true
  | _ => false

end Event

namespace WeakReference

/-- What is reported where a reference is disarmed. -/
def disarmEvents (r : WeakReference) : List Event :=
  if r.binding.isSome then [.disarmed r.id] else []

theorem handle?_of_mem_disarmEvents {r : WeakReference} {e : Event} (listed : e ∈ r.disarmEvents) :
    e.handle? = some r.id := by
  unfold disarmEvents at listed
  split at listed
  · rw [List.mem_singleton.mp listed]
    rfl
  · cases listed

end WeakReference

namespace Session
variable (s : Session)

/-- What was reported of bindings and runtimes so far. -/
def news : List Event := s.journal.toList.filter Event.isNews

theorem news_emit (e : Event) : (s.emit e).news = s.news ++ if e.isNews then [e] else [] := by
  unfold news emit
  rw [Array.toList_push, List.filter_append]
  cases told : e.isNews <;> simp [told]

theorem news_of_journal {s s' : Session} (same : s'.journal = s.journal) : s'.news = s.news := by
  unfold news
  rw [same]

theorem news_remark {e : Event} (remark : e.isRemark = true) : (s.emit e).news = s.news := by
  rw [news_emit]
  cases e with
  | notFinalizable handle typeName => exact List.append_nil _
  | pruned entries => exact List.append_nil _
  | swept entries => exact List.append_nil _
  | collected micros dead live => exact List.append_nil _
  | discarded finalizers => exact List.append_nil _
  | _ => cases remark

theorem news_reclaimed (rs : List (Reclaimed Finalizer)) :
    (s.emitAll (reclaimedEvents rs)).news = s.news := by
  rw [emitAll_eq]
  unfold news reclaimedEvents
  have none_told : (rs.map fun r => Event.reclaimed r.index r.due.length).filter Event.isNews =
    [] := by
    rw [List.filter_eq_nil_iff]
    intro e listed
    obtain ⟨r, _, same⟩ := List.mem_map.mp listed
    subst same
    exact Bool.false_ne_true
  simp [none_told]

theorem journal_supersede (pins c : Nat) (handle : HandleId) :
    (s.supersede pins c handle).journal = s.journal := by
  unfold supersede
  dsimp only
  split <;> rfl

theorem journal_discard (r : WeakReference) : (s.discard r).journal = s.journal := by
  unfold discard
  split
  · exact s.journal_supersede _ _ _
  · rfl

theorem journal_discardAll (rs : List WeakReference) : (s.discardAll rs).journal = s.journal := by
  induction rs generalizing s with
  | nil => rfl
  | cons r rest ih => exact (ih (s.discard r)).trans (s.journal_discard r)

theorem news_disarm (roots : Nat) (r : WeakReference) :
    (s.disarm roots r).news = s.news ++ r.disarmEvents := by
  unfold disarm WeakReference.disarmEvents
  split
  · rename_i b binding
    rw [news_emit, news_of_journal (s.journal_supersede _ _ _), binding]
    rfl
  · rename_i empty
    rw [empty]
    exact (List.append_nil _).symm

theorem news_endBinding (roots c : Nat) (handle : HandleId) :
    (s.endBinding roots c handle).news =
      s.news ++ if (s.cell c).isBound then [.clearedByFinalizer handle] else [] := by
  have pays : (s.cell c).fire.2.releasesPin = (s.cell c).isBound := by
    cases s.cell c <;> rfl
  unfold endBinding
  dsimp only
  rw [pays]
  split
  · rw [news_emit]
    rfl
  · exact (List.append_nil _).symm

theorem journal_clearDead (roots c : Nat) (handle : HandleId) :
    (s.clearDead roots c handle).journal = s.journal := by
  unfold clearDead
  dsimp only
  split <;> rfl

theorem news_arrive (i : Nat) (c : Collector) (handle : HandleId) (target : ObjectRef) (ran : Bool)
    (a : Affiliation) : (s.arrive i c handle target ran a).news = s.news ++ [.bound handle a] :=
  s.news_emit (.bound handle a)

end Session

/-- Nothing is reported of bindings and runtimes, and no reference of the table changes but by going
away. -/
structure Quiet (m m' : Moment) : Prop where
  news : m'.session.news = m.session.news
  alive : m'.session.alive = m.session.alive
  kept : ∀ r ref, m'.session.ref? r = some ref →
    m.session.ref? r = none ∨ m.session.ref? r = some ref

namespace Quiet
variable {m m' : Moment}

theorem of_refs (refs : m'.session.refs = m.session.refs) (news : m'.session.news = m.session.news)
    (alive : m'.session.alive = m.session.alive) : Quiet m m' where
  news := news
  alive := alive
  kept r ref here := by
    right
    unfold Session.ref? at here ⊢
    rwa [refs] at here

theorem of_same (same : Session.SameButBindings m.session m'.session)
    (journal : m'.session.journal = m.session.journal) : Quiet m m' :=
  of_refs same.refs (Session.news_of_journal journal) same.alive

variable (s : Session) (hand : Option WeakReference) (running : List Action)
variable (flight : List Finalizer)

theorem vacate (r : Nat) :
    Quiet ⟨s, hand, running, flight⟩ ⟨s.setRef r none, hand, running, flight⟩ where
  news := rfl
  alive := rfl
  kept q ref here := by
    have here : (s.setRef r none).ref? q = some ref := here
    rw [Session.ref?_setRef] at here
    split at here
    · cases here
    · exact .inr here

theorem addRef (new : Option WeakReference) (hand' : Option WeakReference) :
    Quiet ⟨s, hand, running, flight⟩ ⟨s.addRef new, hand', running, flight⟩ where
  news := rfl
  alive := rfl
  kept q ref here := by
    have here : (s.addRef new).ref? q = some ref := here
    rw [Session.ref?_addRef] at here
    split at here
    · rename_i last
      left
      simp [Session.ref?, last]
    · exact .inr here

end Quiet

/-- A move, or moves that are made only together. -/
inductive Stride (T : Tag → Prop) : Moment → Moment → Prop where
  | quiet {t : Tag} {m m' : Moment} : T t → Move t m m' → Quiet m m' → Stride T m m'
  | fire (m : Moment) {i : Nat} {c : Collector} {cell : Nat} {handle : HandleId}
      {rest : List Finalizer} : T .free → m.session.collector? i = some c → m.running = [] →
    m.flight = .endBinding cell handle :: rest →
    Stride T m { m with
      session := (m.session.logRun (.endBinding cell handle)).endBinding c.heap.pins cell handle
      flight := rest }
  | clear (m : Moment) {i : Nat} {c : Collector} {p : Place} {ref : WeakReference} {b : Binding}
      {target : ObjectRef} : T (.touch p) → m.session.collector? i = some c →
    m.held p = some ref → ref.binding = some b → m.session.cell b.cell = .bound target →
    c.isReachable target = false →
    Stride T m { m with
      session := (m.session.clearDead c.heap.pins b.cell ref.id).emit (.clearedOnRead ref.id) }
  /-- A reference is disarmed and emptied. -/
  | release (m : Moment) {i : Nat} {c : Collector} {r : Nat} {ref : WeakReference} :
    T (.touch (.ref r)) → m.session.collector? i = some c → m.session.ref? r = some ref →
    Stride T m { m with
      session := (m.session.disarm c.heap.pins ref).setRef r (some ref.emptied) }
  | rebind (m : Moment) {i : Nat} {c c' : Collector} {p : Place} {ref : WeakReference}
      {target : ObjectRef} {ran : Bool} {a : Affiliation} : T (.touch p) →
    T (.bind i ref.id target) → m.session.collector? i = some c → m.held p = some ref →
    (∀ x key, p ≠ .entry x key) → m.flight = [] →
    c.Receives target (.endBinding m.session.cells.size ref.id) c' ran a →
    Stride T m (Moment.put { m with
        session := (m.session.disarm c.heap.pins ref).arrive i c' ref.id target ran a } p
      { ref with binding := some ⟨m.session.cells.size, a, c.heap.runtime, c.heap.pins⟩ })
  | replace (m : Moment) {i : Nat} {c : Collector} {x : Nat} {key : String} {map : WeakValueMap}
      {ref previous : WeakReference} : T (.touch (.entry x key)) → T (.arrive (.entry x key)) →
    m.session.collector? i = some c → m.hand = some ref → m.session.map? x = some map →
    map.entries.get? key = some previous →
    Stride T m { m with
      session := (m.session.disarm c.heap.pins previous).modifyEntries x (·.insert key ref)
      hand := none }
  | remove (m : Moment) {i : Nat} {c : Collector} {x : Nat} {key : String} {map : WeakValueMap}
      {ref : WeakReference} : T (.touch (.entry x key)) → T (.thin x) →
    m.session.collector? i = some c → m.session.map? x = some map →
    map.entries.get? key = some ref →
    Stride T m { m with
      session := (m.session.disarm c.heap.pins ref).modifyEntries x (·.erase key) }

/-- A run of strides whose tags are all allowed. -/
def Strides (T : Tag → Prop) : Moment → Moment → Prop := Relation.ReflTransGen (Stride T)

namespace Stride
variable {T : Tag → Prop} {m m' : Moment}

/-- A stride is a run of moves. -/
theorem moves (stride : Stride T m m') : Moves T m m' := by
  cases stride with
  | quiet allowed move _ => exact .single allowed move
  | fire _ free here still flying => exact .single free (.fire m here still flying)
  | clear _ touch here held binding bound dead =>
    exact .single touch (.clear m here held binding bound dead)
  | @release _ i c r ref touch here held =>
    have still : (m.session.disarm c.heap.pins ref).ref? r = some ref :=
      ((m.session.sameButBindings_disarm _ ref).ref? r).trans held
    have emptied := Move.empty { m with session := m.session.disarm c.heap.pins ref } still
      (m.session.isBound_disarm _ ref)
    exact (Moves.single touch (.disarm m (p := .ref r) here held)).trans (.single touch emptied)
  | @rebind _ i c c' p ref target ran a touch bind here held loose calm received =>
    have same := m.session.sameButBindings_disarm c.heap.pins ref
    have still : Moment.held { m with session := m.session.disarm c.heap.pins ref } p = some ref :=
      (Moment.held_congr (m := m) (n := { m with session := m.session.disarm c.heap.pins ref })
        same.refs same.maps rfl p).trans held
    have here' := (same.collector? i).trans here
    rw [← m.session.size_cells_disarm c.heap.pins ref] at received
    have attached := Move.attach { m with session := m.session.disarm c.heap.pins ref } here' still
      loose (m.session.isBound_disarm _ ref) calm received
    rw [m.session.size_cells_disarm] at attached
    exact (Moves.single touch (.disarm m here held)).trans (.single bind attached)
  | @replace _ i c x key map ref previous touch settle here hand present stands =>
    have same := m.session.sameButBindings_disarm c.heap.pins previous
    have held : m.held (.entry x key) = some previous := by
      change (m.session.map? x).bind _ = _
      rw [present]
      exact stands
    have unbound (q : WeakReference) (listed : map.entries.get? key = some q) :
        (m.session.disarm c.heap.pins previous).isBound q = false := by
      rw [stands] at listed
      cases listed
      exact m.session.isBound_disarm _ _
    have placed := Move.place { m with session := m.session.disarm c.heap.pins previous } hand
      ((same.map? x).trans present) unbound
    exact (Moves.single touch (.disarm m here held)).trans (.single settle placed)
  | @remove _ i c x key map ref touch thin here present stands =>
    have same := m.session.sameButBindings_disarm c.heap.pins ref
    have held : m.held (.entry x key) = some ref := by
      change (m.session.map? x).bind _ = _
      rw [present]
      exact stands
    have unbound (k : String) (q : WeakReference) (listed : map.entries.get? k = some q)
        (gone : decide (k ≠ key) = false) : (m.session.disarm c.heap.pins ref).isBound q =
        false := by
      have named : k = key := by simpa using gone
      rw [named, stands] at listed
      cases listed
      exact m.session.isBound_disarm _ _
    have thinned := Move.thin { m with session := m.session.disarm c.heap.pins ref }
      ((same.map? x).trans present) unbound
    exact (Moves.single touch (.disarm m here held)).trans (.single thin thinned)

theorem alive (stride : Stride T m m') : m'.session.alive = m.session.alive := by
  cases stride with
  | quiet _ _ quiet => exact quiet.alive
  | @fire _ i c cell handle =>
    exact ((m.session.logRun _).sameButBindings_endBinding _ cell handle).alive
  | clear _ => exact (m.session.sameButBindings_clearDead _ _ _).alive
  | release _ => exact (m.session.sameButBindings_disarm _ _).alive
  | @rebind _ i c c' p ref target ran a =>
    have put := Moment.put_same { m with
      session := (m.session.disarm c.heap.pins ref).arrive i c' ref.id target ran a } p
      { ref with binding := some ⟨m.session.cells.size, a, c.heap.runtime, c.heap.pins⟩ }
    exact put.alive.trans (m.session.sameButBindings_disarm _ ref).alive
  | replace _ => exact (m.session.sameButBindings_disarm _ _).alive
  | remove _ => exact (m.session.sameButBindings_disarm _ _).alive

theorem news_rebind {s : Session} {i : Nat} {c : Collector} {p : Place} {ref ref' : WeakReference}
    {hand : Option WeakReference} {running : List Action} {flight : List Finalizer} {roots : Nat}
    {target : ObjectRef} {ran : Bool} {a : Affiliation} :
    (Moment.put ⟨(s.disarm roots ref).arrive i c ref.id target ran a, hand, running, flight⟩ p
      ref').session.news = s.news ++ (ref.disarmEvents ++ [.bound ref.id a]) := by
  have put := Moment.put_same
    ⟨(s.disarm roots ref).arrive i c ref.id target ran a, hand, running, flight⟩ p ref'
  rw [Session.news_of_journal put.journal, Session.news_arrive, Session.news_disarm,
    List.append_assoc]

theorem reports (stride : Stride T m m') : ∃ told : List Event,
    m'.session.news = m.session.news ++ told ∧ ∀ e ∈ told, e.handle?.isSome = true := by
  have about_disarm (r : WeakReference) (e : Event) (listed : e ∈ r.disarmEvents) :
      e.handle?.isSome = true := by
    rw [WeakReference.handle?_of_mem_disarmEvents listed]
    rfl
  cases stride with
  | quiet _ _ quiet => exact ⟨[], by rw [quiet.news, List.append_nil], nofun⟩
  | @fire _ i c cell handle =>
    refine ⟨_, (m.session.logRun _).news_endBinding _ cell handle, ?_⟩
    split <;> simp [Event.handle?]
  | @clear _ i c p ref b =>
    refine ⟨[.clearedOnRead ref.id], ?_, by simp [Event.handle?]⟩
    rw [Session.news_emit, Session.news_of_journal (m.session.journal_clearDead _ _ _)]
    rfl
  | release _ => exact ⟨_, m.session.news_disarm _ _, about_disarm _⟩
  | @rebind _ i c c' p ref target ran a =>
    refine ⟨_, news_rebind, fun e listed => ?_⟩
    rcases List.mem_append.mp listed with ending | new
    · exact about_disarm ref e ending
    · rw [List.mem_singleton.mp new]
      rfl
  | replace _ => exact ⟨_, m.session.news_disarm _ _, about_disarm _⟩
  | remove _ => exact ⟨_, m.session.news_disarm _ _, about_disarm _⟩

end Stride

namespace Strides
variable {T : Tag → Prop} {m m' m'' : Moment}

theorem refl : Strides T m m := Relation.ReflTransGen.refl

theorem single (stride : Stride T m m') : Strides T m m' := Relation.ReflTransGen.single stride

theorem quiet {t : Tag} (allowed : T t) (move : Move t m m') (quiet : Quiet m m') :
    Strides T m m' :=
  single (.quiet allowed move quiet)

theorem trans (first : Strides T m m') (rest : Strides T m' m'') : Strides T m m'' :=
  Relation.ReflTransGen.trans first rest

theorem moves (run : Strides T m m') : Moves T m m' := by
  induction run with
  | refl => exact .refl
  | tail _ last ih => exact ih.trans last.moves

theorem alive (run : Strides T m m') : m'.session.alive = m.session.alive := by
  induction run with
  | refl => rfl
  | tail _ last ih => exact last.alive.trans ih

theorem reports (run : Strides T m m') : ∃ told : List Event,
    m'.session.news = m.session.news ++ told ∧ ∀ e ∈ told, e.handle?.isSome = true := by
  induction run with
  | refl => exact ⟨[], (List.append_nil _).symm, nofun⟩
  | tail _ last ih =>
    obtain ⟨first, news, about⟩ := ih
    obtain ⟨next, news', about'⟩ := last.reports
    refine ⟨first ++ next, by rw [news', news, List.append_assoc], ?_⟩
    intro e listed
    rcases List.mem_append.mp listed with before | now
    · exact about e before
    · exact about' e now

end Strides

end WeakRefs
