import WeakRefs.Proofs.HandleProtocol
import WeakRefs.Proofs.Sweeping

/-!
# What a run reports of a handle

`WordsFit` relates the word of each handle to whoever has the handle. A stride that reports nothing
of bindings keeps this, and each of the others reports of one handle.
-/

namespace WeakRefs

/-- A reference is as the stage of its handle says. -/
def Session.FitsStage (s : Session) (a : WeakReference) : Stage → Prop
  | .idle => a.binding = none
  | .bound => a.binding.isSome = true
  | .cleared => a.binding.isSome = true ∧ s.isBound a = false

/-- The words of all handles can be read, and fit whoever has the handle. -/
structure WordsFit (m : Moment) : Prop where
  reads : ∀ h, ∃ g, Stage.idle.after? (m.session.word h) = some g ∧
    ∀ p a, m.held p = some a → a.id = h → m.session.FitsStage a g
  fresh : ∀ h, m.session.handles < h.raw → m.session.word h = []

/-- Nothing is reported of bindings, and references come new or from another place. -/
structure ReportsNothing (m m' : Moment) : Prop where
  word : ∀ h, m'.session.word h = m.session.word h
  held : ∀ p a, m'.held p = some a →
    (a.binding = none ∧ a.id = m.session.freshHandle.2) ∨ ∃ q, m.held q = some a

/-- What is reported is of one handle, which a reference has, and moves it on to another stage. -/
structure ReportsOf (m m' : Moment) (a : WeakReference) (told : List Event) : Prop where
  news : m'.session.news = m.session.news ++ told
  about : ∀ e ∈ told, e.handle? = some a.id
  others : ∀ q b, m'.held q = some b → b.id ≠ a.id → ∃ q', m.held q' = some b
  turns : ∀ g, m.session.FitsStage a g → ∃ g', g.after? (told.filterMap (·.letterOf? a.id)) =
    some g' ∧
    ∀ q b, m'.held q = some b → b.id = a.id → m'.session.FitsStage b g'

section Later
variable {m m' : Moment} (later : Moment.Later m m') (ownership : Ownership m)
include later ownership

/-- A cell that was there is bound only if it was bound before. -/
theorem Moment.Later.bound_of_old {d : Nat} {t : ObjectRef} (old : d < m.session.cells.size)
    (bound : m'.session.cell d = .bound t) : m.session.cell d = .bound t := by
  have both : m.session.cells.size ≤ m'.session.cells.size ∧
      (m'.session.cell d = .bound t → m.session.cell d = .bound t) := by
    refine later.keeps ownership (I := fun n => m.session.cells.size ≤ n.session.cells.size ∧
      (n.session.cell d = .bound t → m.session.cell d = .bound t)) ?_ ⟨Nat.le_refl _, id⟩
    rintro tag n n' _ ownership move ⟨size, before⟩
    exact ⟨Nat.le_trans size (move.cells_le ownership),
      fun bound => before (move.bound_of_old ownership (Nat.lt_of_lt_of_le old size) bound)⟩
  exact both.2 bound

theorem Session.fitsStage_later {p : Place} {a : WeakReference} {g : Stage}
    (here : m.held p = some a) (fits : m.session.FitsStage a g) : m'.session.FitsStage a g := by
  cases g with
  | idle => exact fits
  | bound => exact fits
  | cleared =>
    refine ⟨fits.1, ?_⟩
    have unbound := fits.2
    rw [Session.isBound_eq_false_iff] at unbound ⊢
    intro c own
    cases state : (m'.session.cell c).isBound with
    | false => rfl
    | true =>
      obtain ⟨t, bound⟩ := (Cell.isBound_iff _).mp state
      have before := unbound c own
      rw [later.bound_of_old ownership (ownership.inside p a c here own) bound] at before
      cases before

theorem WordsFit.of_noReport (fit : WordsFit m) (noReport : ReportsNothing m m') : WordsFit m' := by
  constructor
  · intro h
    obtain ⟨g, reads, fits⟩ := fit.reads h
    refine ⟨g, (noReport.word h).symm ▸ reads, fun p a there named => ?_⟩
    rcases noReport.held p a there with ⟨empty, new⟩ | ⟨q, before⟩
    · have silent := fit.fresh h (by
        rw [← named, new]
        exact Nat.lt_succ_self _)
      rw [silent] at reads
      cases reads
      exact empty
    · exact Session.fitsStage_later later ownership before (fits q a before named)
  · intro h unissued
    rw [noReport.word]
    exact fit.fresh h (Nat.lt_of_le_of_lt (later.handles_le ownership) unissued)

end Later

theorem Event.letterOf?_of_ne {e : Event} {h x : HandleId} (about : e.handle? = some x)
    (other : h ≠ x) : e.letterOf? h = none := by
  have apart : ¬ x = h := fun same => other same.symm
  cases e <;> cases about <;> simp [letterOf?, letter?, apart]

namespace ReportsOf
variable {m m' : Moment} {p : Place} {a : WeakReference} {told : List Event}

theorem word_of_ne (reported : ReportsOf m m' a told) {h : HandleId} (other : h ≠ a.id) :
    m'.session.word h = m.session.word h := by
  have silent : told.filterMap (·.letterOf? h) = [] := by
    rw [List.filterMap_eq_nil_iff]
    intro e listed
    exact Event.letterOf?_of_ne (reported.about e listed) other
  rw [Session.word_of_news h reported.news, silent, List.append_nil]

theorem fit (reported : ReportsOf m m' a told) (later : Moment.Later m m') (ownership : Ownership m)
    (here : m.held p = some a) (fit : WordsFit m) : WordsFit m' := by
  constructor
  · intro h
    obtain ⟨g, reads, fits⟩ := fit.reads h
    by_cases named : h = a.id
    · subst named
      obtain ⟨g', follows, fits'⟩ := reported.turns g (fits p a here rfl)
      refine ⟨g', ?_, fits'⟩
      rw [Session.word_of_news _ reported.news, Stage.after?_append, reads]
      exact follows
    · refine ⟨g, (reported.word_of_ne named).symm ▸ reads, fun q b there same => ?_⟩
      obtain ⟨q', before⟩ := reported.others q b there (same ▸ named)
      exact Session.fitsStage_later later ownership before (fits q' b before same)
  · intro h unissued
    have grown := later.handles_le ownership
    have other : h ≠ a.id := by
      rintro rfl
      have issued := Nat.le_trans (ownership.issued p a here) grown
      exact absurd unissued (Nat.not_lt.mpr issued)
    rw [reported.word_of_ne other]
    exact fit.fresh h (Nat.lt_of_le_of_lt grown unissued)

end ReportsOf

section Silent
variable {t : Tag} {m m' : Moment}

theorem Move.hand_before (move : Move t m m') (brings : t.brings = false) {a : WeakReference}
    (there : m'.hand = some a) : m.hand = some a := by
  cases move with
  | dropHand _ _ _ => cases there
  | take _ _ => cases brings
  | attach _ _ _ _ _ _ _ => cases brings
  | enlist _ _ => cases brings
  | place _ _ _ _ => cases brings
  | _ => exact there

theorem Quiet.noReport (quiet : Quiet m m') (ownership : Ownership m) (move : Move t m m') :
    ReportsNothing m m' := by
  refine ⟨fun h => Session.word_of_same h quiet.news, fun p a there => ?_⟩
  cases brings : t.brings with
  | false =>
    obtain ⟨b, before, _⟩ := (move.noNew ownership.heaps brings).held p a there
    cases p with
    | ref r =>
      rcases quiet.kept r a there with gone | same
      · cases gone.symm.trans before
      · exact Or.inr ⟨.ref r, same⟩
    | entry x key =>
      refine Or.inr ⟨.entry x key, move.entry_before there ?_⟩
      rintro rfl
      cases brings
    | hand => exact Or.inr ⟨.hand, move.hand_before brings there⟩
  | true =>
    cases t with
    | arrive q => exact move.rearranges.came p a there
    | bind heap handle target =>
      obtain ⟨q, ref, b, c, c', ran, _, attaches⟩ := move.attaches
      have told := quiet.news
      rw [Session.news_of_journal attaches.same.journal, Session.news_arrive] at told
      exact absurd told (by simp)
    | _ => cases brings

end Silent

section Reporting
variable {m m' : Moment} {i : Nat} {c : Collector} {p : Place} {ref : WeakReference}
variable {told : List Event}

/-- After it was disarmed, a handle is idle. -/
theorem Session.FitsStage.disarmEvents {s : Session} {g : Stage} (fits : s.FitsStage ref g) :
    g.after? (ref.disarmEvents.filterMap (·.letterOf? ref.id)) = some .idle := by
  unfold WeakReference.disarmEvents
  cases g with
  | idle =>
    have empty : ref.binding = none := fits
    simp [empty, Stage.after?]
  | bound =>
    have binding : ref.binding.isSome = true := fits
    simp [binding, Event.letterOf?, Event.letter?, Stage.after?, Stage.follow]
  | cleared => simp [fits.1, Event.letterOf?, Event.letter?, Stage.after?, Stage.follow]

theorem Session.FitsStage.eq_bound {s : Session} {g : Stage} (fits : s.FitsStage ref g)
    (bound : s.isBound ref = true) : g = .bound := by
  cases g with
  | idle =>
    have empty : ref.binding = none := fits
    simp [Session.isBound, empty] at bound
  | bound => rfl
  | cleared =>
    rw [fits.2] at bound
    cases bound

/-- Only whoever has the handle moves on; everybody else stood elsewhere before. -/
theorem ReportsOf.of_came (ownership : Ownership m) (held : m.held p = some ref)
    (news : m'.session.news = m.session.news ++ told) (about : ∀ e ∈ told, e.handle? = some ref.id)
    (g' : Stage) (reads : ∀ g, m.session.FitsStage ref g →
      g.after? (told.filterMap (·.letterOf? ref.id)) = some g')
    (came : ∀ q b, m'.held q = some b → (b.id = ref.id ∧ m'.session.FitsStage b g') ∨
      ∃ q', q' ≠ p ∧ m.held q' = some b) : ReportsOf m m' ref told where
  news := news
  about := about
  others q b there other := by
    rcases came q b there with ⟨same, _⟩ | ⟨q', _, before⟩
    · exact absurd same other
    · exact ⟨q', before⟩
  turns g fits := by
    refine ⟨g', reads g fits, fun q b there same => ?_⟩
    rcases came q b there with ⟨_, now⟩ | ⟨q', elsewhere, before⟩
    · exact now
    · exact absurd (ownership.ids q' p b ref before held same) elsewhere

theorem ReportsOf.of_cleared {e : Event} {l : Letter} (ownership : Ownership m)
    (held : m.held p = some ref) (bound : m.session.isBound ref = true)
    (news : m'.session.news = m.session.news ++ [e]) (letter : e.letter? = some (ref.id, l))
    (clears : l = .finalized ∨ l = .stale) (same : ∀ q, m'.held q = m.held q)
    (unbound : m'.session.isBound ref = false) : ReportsOf m m' ref [e] := by
  refine .of_came ownership held news (fun e' listed => ?_) .cleared (fun g fits => ?_)
    fun q b there => ?_
  · rw [List.mem_singleton.mp listed]
    cases e <;> cases letter <;> rfl
  · rw [fits.eq_bound bound]
    rcases clears with rfl | rfl <;> simp [Event.letterOf?, letter, Stage.after?, Stage.follow]
  · rw [same] at there
    by_cases here : q = p
    · subst here
      cases held.symm.trans there
      obtain ⟨c, own, _⟩ := (m.session.isBound_iff ref).mp bound
      obtain ⟨b, binding, _⟩ := WeakReference.cell?_eq_some_iff.mp own
      exact Or.inl ⟨rfl, binding ▸ rfl, unbound⟩
    · exact Or.inr ⟨q, here, there⟩

/-- A reference is disarmed, and stands in its place no more, or empty. -/
theorem ReportsOf.of_disarmed {roots : Nat} (ownership : Ownership m) (held : m.held p = some ref)
    (news : m'.session.news = (m.session.disarm roots ref).news)
    (came : ∀ q b, m'.held q = some b → (b.id = ref.id ∧ b.binding = none) ∨
      ∃ q', q' ≠ p ∧ m.held q' = some b) : ReportsOf m m' ref ref.disarmEvents :=
  .of_came ownership held (news.trans (m.session.news_disarm roots ref))
    (fun _ => WeakReference.handle?_of_mem_disarmEvents) .idle
    (fun _ fits => fits.disarmEvents) came

theorem Moment.held_disarm (m : Moment) (roots : Nat) (ref : WeakReference) (q : Place) :
    Moment.held { m with session := m.session.disarm roots ref } q = m.held q := by
  have same := m.session.sameButBindings_disarm roots ref
  exact Moment.held_congr (m := m) (n := ⟨_, m.hand, m.running, m.flight⟩) same.refs same.maps rfl q

theorem ReportsOf.of_rebound {roots : Nat} {target : ObjectRef} {ran : Bool} {a : Affiliation}
    {ref' : WeakReference} (ownership : Ownership m) (held : m.held p = some ref)
    (loose : ∀ x key, p ≠ .entry x key) (id : ref'.id = ref.id)
    (binding : ref'.binding.isSome = true) :
    ReportsOf m (Moment.put { m with
      session := (m.session.disarm roots ref).arrive i c ref.id target ran a } p ref') ref
      (ref.disarmEvents ++ [.bound ref.id a]) := by
  have before := m.held_disarm roots ref
  refine .of_came ownership held Stride.news_rebind (fun e listed => ?_) .bound (fun g fits => ?_)
    fun q b there => ?_
  · rcases List.mem_append.mp listed with ending | new
    · exact WeakReference.handle?_of_mem_disarmEvents ending
    · rw [List.mem_singleton.mp new]
      rfl
  · rw [List.filterMap_append, Stage.after?_append, fits.disarmEvents]
    simp [Event.letterOf?, Event.letter?, Stage.after?, Stage.follow]
  · rw [held_arrive ((before p).trans held) loose q] at there
    split at there
    · cases there
      exact Or.inl ⟨id, binding⟩
    · rename_i elsewhere
      exact Or.inr ⟨q, elsewhere, (before q).symm.trans there⟩

section Finalizers
variable {cell : Nat} {handle : HandleId} (roots : Nat) (rest : List Finalizer)

theorem Moment.held_fire (q : Place) : Moment.held { m with
    session := (m.session.logRun (.endBinding cell handle)).endBinding roots cell handle
    flight := rest } q = m.held q := by
  have same := (m.session.logRun (.endBinding cell handle)).sameButBindings_endBinding roots cell
    handle
  exact Moment.held_congr (m := m) (n := ⟨_, m.hand, m.running, rest⟩) same.refs same.maps rfl q

theorem ReportsNothing.of_fired (ended : (m.session.cell cell).isBound = false) :
    ReportsNothing m { m with
    session := (m.session.logRun (.endBinding cell handle)).endBinding roots cell handle
    flight := rest } := by
  have news := (m.session.logRun (.endBinding cell handle)).news_endBinding roots cell handle
  rw [Session.cell_logRun, ended] at news
  have silent := news.trans (List.append_nil _)
  refine ⟨fun h => Session.word_of_same h silent, fun p a there => Or.inr ⟨p, ?_⟩⟩
  rw [Moment.held_fire] at there
  exact there

theorem ReportsOf.of_fired (ownership : Ownership m)
    (flying : m.flight = .endBinding cell handle :: rest)
    (state : (m.session.cell cell).isBound = true) : ∃ p a, m.held p = some a ∧ ReportsOf m { m with
      session := (m.session.logRun (.endBinding cell handle)).endBinding roots cell handle
      flight := rest } a [.clearedByFinalizer handle] := by
  have news := (m.session.logRun (.endBinding cell handle)).news_endBinding roots cell handle
  rw [Session.cell_logRun, state] at news
  obtain ⟨t, bound⟩ := (Cell.isBound_iff _).mp state
  obtain ⟨p, a, there, own⟩ := ownership.holder cell t bound
  have waits : m.Awaits (.endBinding cell handle) := Or.inr (flying ▸ List.mem_cons_self)
  have named := (ownership.waits cell handle waits).2 p a there own
  have in_force := (m.session.isBound_iff a).mpr ⟨cell, own, state⟩
  refine ⟨p, a, there, .of_cleared (l := .finalized) ownership there in_force news (named ▸ rfl)
    (Or.inl rfl) (Moment.held_fire roots rest) ?_⟩
  rw [Session.isBound_eq_false_iff]
  intro d mine
  cases own.symm.trans mine
  rw [Session.cell_endBinding, if_pos rfl]
  exact Cell.isBound_fire _

end Finalizers

theorem ReportsOf.of_read (ownership : Ownership m) (held : m.held p = some ref) {b : Binding}
    {target : ObjectRef} (roots : Nat) (binding : ref.binding = some b)
    (bound : m.session.cell b.cell = .bound target) :
    ReportsOf m { m with
      session := (m.session.clearDead roots b.cell ref.id).emit (.clearedOnRead ref.id) } ref
      [.clearedOnRead ref.id] := by
  have same := m.session.sameButBindings_clearDead roots b.cell ref.id
  have in_force : m.session.isBound ref = true := by
    rw [m.session.isBound_of_binding binding, bound]
    rfl
  refine .of_cleared (l := .stale) ownership held in_force ?_ rfl (Or.inr rfl) ?_ ?_
  · rw [Session.news_emit, Session.news_of_journal (m.session.journal_clearDead _ _ _)]
    rfl
  · exact Moment.held_congr (m := m) (n := ⟨_, m.hand, m.running, m.flight⟩) same.refs same.maps rfl
  · rw [Session.isBound_of_binding _ binding, Session.cell_emit, Session.cell_clearDead, if_pos rfl]
    exact Cell.isBound_clear _

theorem ReportsOf.of_released (ownership : Ownership m) {r : Nat}
    (held : m.held (.ref r) = some ref) (roots : Nat) :
    ReportsOf m
      { m with session := (m.session.disarm roots ref).setRef r (some ref.emptied) }
      ref ref.disarmEvents := by
  have before := m.held_disarm roots ref
  have put := Moment.held_put ((before (.ref r)).trans held) nofun ref.emptied
  refine .of_disarmed ownership held rfl fun q a there => ?_
  have there := (put q).symm.trans there
  split at there
  · cases there
    exact Or.inl ⟨ref.id_emptied, rfl⟩
  · rename_i elsewhere
    exact Or.inr ⟨q, elsewhere, (before q).symm.trans there⟩

section Entries
variable {x : Nat} {key : String} {map : WeakValueMap} (ownership : Ownership m) (roots : Nat)
variable (present : m.session.map? x = some map) (stands : map.entries.get? key = some ref)
include ownership present stands

theorem ReportsOf.of_replaced {new : WeakReference} (hand : m.hand = some new) :
    ReportsOf m { m with
      session := (m.session.disarm roots ref).modifyEntries x (·.insert key new)
      hand := none } ref ref.disarmEvents := by
  have held : m.held (.entry x key) = some ref :=
    m.session.entry?_eq_some_iff.mpr ⟨map, present, stands⟩
  have same := m.session.sameButBindings_disarm roots ref
  refine .of_disarmed ownership held rfl fun q a there => Or.inr ?_
  rw [Session.held_insert _ ((same.map? x).trans present)] at there
  split at there
  · exact ⟨.hand, nofun, hand.trans there⟩
  · rename_i elsewhere
    refine ⟨q, elsewhere, ?_⟩
    cases q with
    | hand => cases there
    | ref k => exact (m.held_disarm roots ref (.ref k)).symm.trans there
    | entry y k => exact (m.held_disarm roots ref (.entry y k)).symm.trans there

theorem ReportsOf.of_removed :
    ReportsOf m
      { m with session := (m.session.disarm roots ref).modifyEntries x (·.erase key) }
      ref ref.disarmEvents := by
  have held : m.held (.entry x key) = some ref :=
    m.session.entry?_eq_some_iff.mpr ⟨map, present, stands⟩
  have before := m.held_disarm roots ref
  refine .of_disarmed ownership held rfl fun q a there => Or.inr ?_
  cases q with
  | hand => exact ⟨.hand, nofun, there⟩
  | ref k => exact ⟨.ref k, nofun, (before (.ref k)).symm.trans there⟩
  | entry y k =>
    have there : Session.entry? ((m.session.disarm roots ref).modifyEntries x (·.erase key)) y k =
      some a := there
    rw [Session.entry?_modifyEntries] at there
    split at there
    · rename_i its
      subst its
      obtain ⟨entries, found, left⟩ := Option.bind_eq_some_iff.mp there
      rw [Table.get?_erase] at left
      split at left
      · cases left
      · rename_i other
        have stood : Session.entry? (m.session.disarm roots ref) x k = some a := by
          rw [Session.entry?_eq, found]
          exact left
        exact ⟨.entry x k, fun at_key => other (Place.entry.inj at_key).2,
          (before (.entry x k)).symm.trans stood⟩
    · rename_i other
      exact ⟨.entry y k, fun at_key => other (Place.entry.inj at_key).1.symm,
        (before (.entry y k)).symm.trans there⟩

end Entries

end Reporting

/-- A stride reports nothing of bindings, or it reports of one reference. -/
theorem Stride.reported {T : Tag → Prop} {m m' : Moment} (ownership : Ownership m)
    (stride : Stride T m m') : ReportsNothing m m' ∨
      ∃ p a told, m.held p = some a ∧ ReportsOf m m' a told := by
  cases stride with
  | quiet _ move quiet => exact Or.inl (quiet.noReport ownership move)
  | @fire _ i c cell handle rest free here idle flying =>
    cases state : (m.session.cell cell).isBound with
    | false => exact Or.inl (.of_fired c.heap.pins rest state)
    | true =>
      obtain ⟨p, a, there, reported⟩ := ReportsOf.of_fired c.heap.pins rest ownership flying state
      exact Or.inr ⟨p, a, _, there, reported⟩
  | clear _ touch here held binding bound dead =>
    exact Or.inr ⟨_, _, _, held, .of_read ownership held _ binding bound⟩
  | release _ touch here held => exact Or.inr ⟨.ref _, _, _, held, .of_released ownership held _⟩
  | rebind _ touch bind here held loose calm received =>
    exact Or.inr ⟨_, _, _, held, .of_rebound ownership held loose rfl rfl⟩
  | replace _ touch settle here hand present stands =>
    have held := m.session.entry?_eq_some_iff.mpr ⟨_, present, stands⟩
    exact Or.inr ⟨.entry _ _, _, _, held, .of_replaced ownership _ present stands hand⟩
  | remove _ touch thin here present stands =>
    have held := m.session.entry?_eq_some_iff.mpr ⟨_, present, stands⟩
    exact Or.inr ⟨.entry _ _, _, _, held, .of_removed ownership _ present stands⟩

/-- What is reported on the way keeps to the protocol, and nothing is reported of a handle that
nobody has. -/
structure WordsExtend (m m' : Moment) : Prop where
  later : Moment.Later m m'
  fit : WordsFit m → WordsFit m'
  word : ∀ h, HandleGone h m → m'.session.word h = m.session.word h

namespace WordsExtend
variable {T : Tag → Prop} {t : Tag} {m m' m'' : Moment}

theorem refl (m : Moment) : WordsExtend m m := ⟨.refl, id, fun _ _ => rfl⟩

theorem trans (ownership : Ownership m) (first : WordsExtend m m') (next : WordsExtend m' m'') :
    WordsExtend m m'' where
  later := first.later.trans next.later
  fit := next.fit ∘ first.fit
  word h handleGone := (next.word h (handleGone.later ownership first.later)).trans
    (first.word h handleGone)

theorem of_unreported (ownership : Ownership m) (move : Move t m m')
    (word : ∀ h, m'.session.word h = m.session.word h)
    (held : ∀ p, m'.held p = m.held p) : WordsExtend m m' := by
  have later : Moment.Later m m' := .single trivial move
  have noReport : ReportsNothing m m' := ⟨word, fun p a there => Or.inr ⟨p, held p ▸ there⟩⟩
  exact ⟨later, fun fit => fit.of_noReport later ownership noReport, fun h _ => word h⟩

theorem stride (ownership : Ownership m) (stride : Stride T m m') : WordsExtend m m' := by
  have later : Moment.Later m m' := stride.moves.weaken fun _ _ => trivial
  refine ⟨later, fun fit => ?_, fun h handleGone => ?_⟩
  · rcases stride.reported ownership with noReport | ⟨p, a, told, here, reported⟩
    · exact fit.of_noReport later ownership noReport
    · exact reported.fit later ownership here fit
  · rcases stride.reported ownership with noReport | ⟨p, a, told, here, reported⟩
    · exact noReport.word h
    · exact reported.word_of_ne fun same => handleGone.absent p a here same.symm

theorem run (ownership : Ownership m) (run : Strides T m m') : WordsExtend m m' := by
  induction run with
  | refl => exact .refl m
  | tail _ last ih => exact ih.trans ownership (.stride (ih.later.ownership ownership) last)

end WordsExtend

namespace Session
variable {s : Session} (h : HandleId)

theorem word_recordInitialized (x : InstanceId) : (s.recordInitialized x).word h = s.word h := by
  simp [word, recordInitialized, emit, Event.letterOf?, Event.letter?]

theorem word_recordTornDown (x : InstanceId) : (s.recordTornDown x).word h = s.word h := by
  unfold recordTornDown
  split
  · simp [word, emit, Event.letterOf?, Event.letter?]
  · rfl

variable (ownership : Ownership ⟨s, none, [], []⟩)
include ownership

omit h in
theorem wordsExtend_recordTornDown (x : InstanceId) :
    WordsExtend ⟨s, none, [], []⟩ ⟨s.recordTornDown x, none, [], []⟩ := by
  refine .of_unreported ownership (Move.tornDown ⟨s, none, [], []⟩ x) (word_recordTornDown · x) ?_
  refine Moment.held_congr (m := ⟨s, none, [], []⟩) (n := ⟨s.recordTornDown x, none, [], []⟩) ?_ ?_
    rfl
  · unfold recordTornDown
    split <;> rfl
  · unfold recordTornDown
    split <;> rfl

omit h in
theorem perform_wordsExtend (op : Op) :
    WordsExtend ⟨s, none, [], []⟩ ⟨(s.perform op).1, none, [], []⟩ := by
  cases plain : op.recordsRuntime with
  | false => exact .run ownership (perform_strides_of_ownership ownership plain)
  | true =>
    cases op with
    | newHeap config =>
      exact .of_unreported ownership (Move.newHeap ⟨s, none, [], []⟩ config)
        (fun h => word_recordInitialized (s := { s.freshRuntime.1.newPinSet.1 with
          collectors := _ }) h _) fun p => by cases p <;> rfl
    | shutDown i =>
      change WordsExtend ⟨s, none, [], []⟩ ⟨s.shutDown i, none, [], []⟩
      cases here : s.collector? i with
      | none =>
        unfold shutDown
        rw [here]
        exact .refl _
      | some c =>
        have recorded := wordsExtend_recordTornDown ownership c.heap.runtime
        have all : c.heap.pendingIndirect.Perm c.heap.sideTable.pairs := List.mergeSort_perm _ _
        have strides := shutDownIn_strides (T := s.Allows (.shutDown i)) .always .ref none
          (.shutDown rfl) here all
        rw [shutDown_eq here]
        exact recorded.trans ownership (.run (recorded.later.ownership ownership) strides)
    | initialized x =>
      exact .of_unreported ownership (Move.initialized ⟨s, none, [], []⟩ x)
        (word_recordInitialized · x) fun p => by cases p <;> rfl
    | tornDown x => exact wordsExtend_recordTornDown ownership x
    | _ => cases plain

omit h in
theorem after_wordsExtend (ops : List Op) :
    WordsExtend ⟨s, none, [], []⟩ ⟨s.after ops, none, [], []⟩ := by
  induction ops generalizing s with
  | nil => exact .refl _
  | cons op rest ih =>
    have first := perform_wordsExtend ownership op
    exact first.trans ownership (ih (first.later.ownership ownership))

end Session

theorem WordsFit.empty : WordsFit ⟨{}, none, [], []⟩ := by
  refine ⟨fun h => ⟨.idle, rfl, fun p a there => ?_⟩, fun h _ => rfl⟩
  rw [Moment.held_empty] at there
  cases there

/-- What a run reports of the bindings of a handle is a word of the protocol. Once nobody has the
handle any more, nothing more is reported of it. -/
theorem reports_keep_to_protocol (ops : List Op) (h : HandleId) :
    (Session.after {} ops).word h ∈ Letter.protocol.matches' ∧
    (h.raw ≤ (Session.after {} ops).handles →
      (∀ p a, (Session.after {} ops).held p = some a → a.id ≠ h) → ∀ more,
        (Session.after {} (ops ++ more)).word h = (Session.after {} ops).word h) := by
  have fit := (Session.after_wordsExtend ownership_empty ops).fit .empty
  constructor
  · obtain ⟨g, reads, _⟩ := fit.reads h
    exact Stage.mem_protocol reads
  · intro issued absent more
    have handleGone : HandleGone h ⟨Session.after {} ops, none, [], []⟩ :=
      ⟨issued, fun p a there => absent p a ((Moment.held_atRest _ p).symm.trans there)⟩
    rw [Session.after_append]
    exact (Session.after_wordsExtend (Session.ownership_after ops) more).word h handleGone

/-- A reference is bound and dropped. When its target is reclaimed, nothing is reported of it. -/
theorem word_of_dropped : ∃ ops more s,
    ops = [.newHeap {}, .alloc 0 .emittable, .newRefTo 0 ⟨0, 0⟩, .dropRef 0] ∧
    more = [.release 0 ⟨0, 0⟩] ∧ s = Session.after {} (ops ++ more) ∧
    s.runs.toList = [.endBinding 0 ⟨1⟩] ∧ s.word ⟨1⟩ = [.bound] ∧
    [.bound] ∈ Letter.protocol.matches' := by
  obtain ⟨ops, run⟩ : ∃ ops : List Op,
    ops = [.newHeap {}, .alloc 0 .emittable, .newRefTo 0 ⟨0, 0⟩, .dropRef 0] := ⟨_, rfl⟩
  have issued : (1 : Nat) ≤ (Session.after {} ops).handles := by
    rw [run]
    decide +kernel
  have refs : (Session.after {} ops).refs = #[none] := by
    rw [run]
    decide +kernel
  have maps : (Session.after {} ops).maps = #[] := by
    apply Array.eq_empty_of_size_eq_zero
    rw [run]
    decide +kernel
  have absent : ∀ p a, (Session.after {} ops).held p = some a → a.id ≠ ⟨1⟩ := by
    intro p a held
    cases p with
    | ref r =>
      rw [Session.held, Session.ref?, refs] at held
      rcases r with _ | r
      · cases held
      · simp at held
    | entry x key =>
      rw [Session.held, Session.entry?, Session.map?, maps] at held
      simp at held
    | hand => cases held
  have word : (Session.after {} ops).word ⟨1⟩ = [.bound] := by
    rw [run]
    decide +kernel
  obtain ⟨reads, later⟩ := reports_keep_to_protocol ops ⟨1⟩
  refine ⟨ops, [.release 0 ⟨0, 0⟩], _, run, rfl, rfl, ?_, ?_, word ▸ reads⟩
  · rw [run]
    decide +kernel
  · rw [later issued absent, word]

end WeakRefs
