import WeakRefs.Proofs.Ownership

/-!
# Pin discipline

While one heap is there, its pin set holds the handle of every reference that is bound, and no
other. Whichever step ends a binding first gives its pin back, and no later one does so again.
-/

namespace WeakRefs

/-- Whether an action of a user finalizer leaves pins alone. -/
def Action.leavesPins : Action → Bool
  | pin _ | unpin _ => false
  | _ => true

/-- Whether a user finalizer leaves pins alone. -/
def Finalizer.leavesPins : Finalizer → Bool
  | user _ actions => actions.all Action.leavesPins
  | _ => true

/-- Nobody pins or unpins by hand, and no heap comes or goes. -/
def Op.isDisciplined (op : Op) : Bool :=
  match op with
  | .newHeap _ | .shutDown _ | .pin _ _ | .unpin _ _ | .clearPins _ => false
  | .define _ _ label actions | .refDefine _ _ label actions =>
    (Finalizer.user label actions).leavesPins
  | _ => true

/-- The tags of moves that a disciplined operation makes. -/
def Tag.isDisciplined : Tag → Prop
  | .pins | .newHeap | .shutDown _ => False
  | .define f => f.leavesPins = true
  | _ => True

theorem Session.Allows.isDisciplined {s : Session} {op : Op} {t : Tag} (allowed : s.Allows op t)
    (disciplined : op.isDisciplined = true) : t.isDisciplined := by
  cases allowed with
  | user defined =>
    cases op <;> cases defined <;> exact disciplined
  | report key handle _ => rfl
  | pins sets =>
    cases op with
    | pin pins handle => cases disciplined
    | unpin pins handle => cases disciplined
    | clearPins pins => cases disciplined
    | _ => cases sets
  | newHeap same => cases same; cases disciplined
  | shutDown same => cases same; cases disciplined
  | _ => trivial

/-- The pin set `P` belongs to all collectors and bindings, and holds the handles that are bound. -/
structure Pinning (P : Nat) (m : Moment) : Prop where
  ownership : Ownership m
  inside : P < m.session.pinSets.size
  collectors : ∀ i c, m.session.collector? i = some c → c.heap.pins = P
  bindings : ∀ p a b, m.held p = some a → a.binding = some b → b.pins = P
  calm : ∀ f, m.Awaits f → f.leavesPins = true
  running : ∀ a ∈ m.running, a.leavesPins = true
  exact : ∀ h, h ∈ m.session.pinned P ↔
    ∃ p a, m.held p = some a ∧ a.id = h ∧ m.session.isBound a = true

/-- The pins that a step gives back are those of the references whose bindings it ends. -/
def Pays (P : Nat) (m m' : Moment) : Prop :=
  ∀ h, h ∈ m'.session.pinned P ↔ h ∈ m.session.pinned P ∧
    ¬ ∃ p a, m.held p = some a ∧ a.id = h ∧ m.session.isBound a = true ∧
      m'.session.isBound a = false

namespace Session

theorem pinned_congr {s s' : Session} (same : s'.pinSets = s.pinSets) (q : Nat) :
    s'.pinned q = s.pinned q := by
  unfold pinned
  rw [same]

end Session

namespace Pays
variable {P : Nat} {m m' : Moment}

theorem quiet (pins : m'.session.pinned P = m.session.pinned P)
    (cells : m'.session.cells = m.session.cells) : Pays P m m' := by
  intro h
  rw [pins]
  constructor
  · intro pinned
    refine ⟨pinned, ?_⟩
    rintro ⟨p, a, _, _, bound, unbound⟩
    rw [Session.isBound_congr fun c _ => Session.cell_congr cells c, bound] at unbound
    cases unbound
  · exact And.left

/-- The bindings of the references in `R` end, each with its pin. -/
theorem ends (ownership : Ownership m) (R : WeakReference → Prop)
    (stands : ∀ r, R r → ∃ p, m.held p = some r) (cells : ∀ d, (m'.session.cell d).isBound = true ↔
      (m.session.cell d).isBound = true ∧ ¬ ∃ r, R r ∧ r.cell? = some d)
    (pins : ∀ h, h ∈ m'.session.pinned P ↔
      h ∈ m.session.pinned P ∧ ¬ ∃ r, R r ∧ m.session.isBound r = true ∧ r.id = h) :
    Pays P m m' := by
  intro h
  rw [pins]
  apply and_congr_right
  intro _
  apply not_congr
  constructor
  · rintro ⟨r, ends, bound, named⟩
    obtain ⟨p, here⟩ := stands r ends
    refine ⟨p, r, here, named, bound, ?_⟩
    rw [Session.isBound_eq_false_iff]
    intro d mine
    cases state : (m'.session.cell d).isBound with
    | false => rfl
    | true => exact absurd ⟨r, ends, mine⟩ ((cells d).mp state).2
  · rintro ⟨p, a, here, named, bound, unbound⟩
    obtain ⟨d, mine, state⟩ := (Session.isBound_iff _ _).mp bound
    rw [Session.isBound_eq_false_iff] at unbound
    have gone := unbound d mine
    have ended : ∃ r, R r ∧ r.cell? = some d := by
      by_cases kept : ∃ r, R r ∧ r.cell? = some d
      · exact kept
      · rw [(cells d).mpr ⟨state, kept⟩] at gone
        cases gone
    obtain ⟨r, ends, its⟩ := ended
    obtain ⟨q, there⟩ := stands r ends
    have same := ownership.own p q a r d here there mine its
    rw [← same, here] at there
    cases there
    exact ⟨a, ends, bound, named⟩

/-- Superseding or clearing the cell of one reference ends its binding, with its pin. -/
theorem one (ownership : Ownership m) {p : Place} {ref : WeakReference} (here : m.held p = some ref)
    (cells : ∀ d, (m'.session.cell d).isBound = true ↔
      (m.session.cell d).isBound = true ∧ ¬ ref.cell? = some d)
    (pins : ∀ h, h ∈ m'.session.pinned P ↔
      h ∈ m.session.pinned P ∧ ¬ (m.session.isBound ref = true ∧ h = ref.id)) : Pays P m m' := by
  refine ends ownership (· = ref) (fun r same => ⟨p, same ▸ here⟩) ?_ ?_
  · intro d
    rw [cells]
    simp
  · intro h
    have only : (∃ r, r = ref ∧ m.session.isBound r = true ∧ r.id = h) ↔
        m.session.isBound ref = true ∧ h = ref.id := by
      simp only [exists_eq_left]
      exact and_congr_right fun _ => eq_comm
    rw [pins, only]

/-- Letting go of references ends all their bindings. -/
theorem discardAll (pinning : Pinning P m) (rs : List WeakReference)
    (stands : ∀ r ∈ rs, ∃ p, m.held p = some r)
    (cells : m'.session.cells = (m.session.discardAll rs).cells)
    (pins : m'.session.pinSets = (m.session.discardAll rs).pinSets) : Pays P m m' := by
  have apart : ∀ a ∈ rs, ∀ b ∈ rs, ∀ c, a.cell? = some c → b.cell? = some c → a = b := by
    intro a ha b hb c mine yours
    obtain ⟨p, here⟩ := stands a ha
    obtain ⟨q, there⟩ := stands b hb
    have same := pinning.ownership.own p q a b c here there mine yours
    rw [← same, here] at there
    exact Option.some.inj there
  refine ends pinning.ownership (· ∈ rs) stands ?_ ?_
  · intro d
    rw [Session.cell_congr cells, Session.cell_discardAll]
    by_cases ended : ∃ r ∈ rs, r.cell? = some d
    · rw [if_pos ended]
      constructor
      · intro bound
        cases bound
      · rintro ⟨_, kept⟩
        exact absurd ended kept
    · rw [if_neg ended]
      exact ⟨fun bound => ⟨bound, ended⟩, And.left⟩
  · intro h
    rw [Session.pinned_congr pins, Session.mem_pinned_discardAll _ apart]
    apply and_congr_right
    intro _
    apply not_congr
    constructor
    · rintro ⟨r, listed, b, binding, bound, _, named⟩
      exact ⟨r, listed, (Session.isBound_of_binding _ binding).trans bound, named.symm⟩
    · rintro ⟨r, listed, bound, named⟩
      obtain ⟨d, mine, state⟩ := (Session.isBound_iff _ _).mp bound
      obtain ⟨b, binding, same⟩ := WeakReference.cell?_eq_some_iff.mp mine
      obtain ⟨p, here⟩ := stands r listed
      subst same
      exact ⟨r, listed, b, binding, state, (pinning.bindings p r b here binding).symm, named.symm⟩

/-- A finalizer that fires ends the binding of its cell, if there is one, with the pin of the handle
that it names. -/
theorem fire {s : Session} {hand hand' : Option WeakReference} {running running' : List Action}
    {flight flight' : List Finalizer} (pinning : Pinning P ⟨s, hand, running, flight⟩) {cell : Nat}
    {handle : HandleId}
    (waiting : Moment.Awaits ⟨s, hand, running, flight⟩ (.endBinding cell handle)) {roots : Nat}
    (set : roots = P) : Pays P ⟨s, hand, running, flight⟩
      ⟨(s.logRun (.endBinding cell handle)).endBinding roots cell handle, hand', running',
        flight'⟩ := by
  have names := (pinning.ownership.waits cell handle waiting).2
  refine ends pinning.ownership (fun r => r.cell? = some cell ∧
    ∃ p, Moment.held ⟨s, hand, running, flight⟩ p = some r) (fun r fired => fired.2) ?_ ?_
  · intro d
    dsimp only
    rw [Session.cell_endBinding, Session.cell_logRun, Session.cell_logRun]
    by_cases same : d = cell
    · subst same
      rw [if_pos rfl, Cell.isBound_fire]
      constructor
      · intro bound
        cases bound
      · rintro ⟨bound, kept⟩
        obtain ⟨t, state⟩ := (Cell.isBound_iff _).mp bound
        obtain ⟨p, a, here, mine⟩ := pinning.ownership.holder d t state
        exact absurd ⟨a, ⟨mine, p, here⟩, mine⟩ kept
    · rw [if_neg same]
      constructor
      · intro bound
        refine ⟨bound, ?_⟩
        rintro ⟨r, ⟨mine, _⟩, its⟩
        rw [mine] at its
        exact same (Option.some.inj its).symm
      · exact And.left
  · intro h
    dsimp only
    rw [Session.mem_pinned_endBinding, Session.pinned_logRun, Session.cell_logRun]
    apply and_congr_right
    intro _
    apply not_congr
    constructor
    · rintro ⟨bound, _, named⟩
      obtain ⟨t, state⟩ := (Cell.isBound_iff _).mp bound
      obtain ⟨p, a, here, mine⟩ := pinning.ownership.holder cell t state
      refine ⟨a, ⟨mine, p, here⟩, ?_, (names p a here mine).trans named.symm⟩
      exact (Session.isBound_iff _ _).mpr ⟨cell, mine, bound⟩
    · rintro ⟨r, ⟨mine, p, here⟩, bound, named⟩
      obtain ⟨d, its, state⟩ := (Session.isBound_iff _ _).mp bound
      rw [mine] at its
      cases its
      exact ⟨state, set.symm, named.symm.trans (names p r here mine)⟩

end Pays

namespace Move
variable {t : Tag} {m m' : Moment} {P : Nat}

/-- No move but those that are excluded takes or gives a pin without a binding. -/
theorem pays (pinning : Pinning P m) (move : Move t m m') (disciplined : t.isDisciplined)
    (quiet : t.brings = false) : Pays P m m' := by
  obtain ⟨s, hand, running, flight⟩ := m
  cases move with
  | remark _ e _ => exact .quiet rfl rfl
  | record _ d => exact .quiet rfl rfl
  | initialized _ x => exact .quiet rfl rfl
  | tornDown _ x =>
    unfold Session.recordTornDown
    dsimp only
    split <;> exact .quiet rfl rfl
  | freshRuntime _ => exact .quiet rfl rfl
  | freshHandle _ => exact .quiet rfl rfl
  | newPinSet _ =>
    refine .quiet ?_ rfl
    have inside : P < s.pinSets.size := pinning.inside
    have apart : ¬ P = s.pinSets.size := Nat.ne_of_lt inside
    simp [Session.pinned, Session.newPinSet, Array.getD_eq_getD_getElem?, Array.getElem?_push,
      apart]
  | modifyPins _ pins f => exact disciplined.elim
  | newHeap _ config => exact disciplined.elim
  | newTrace _ => exact .quiet rfl rfl
  | newMap _ => exact .quiet rfl rfl
  | script _ here heap stash => exact .quiet rfl rfl
  | advance _ here => exact .quiet rfl rfl
  | alloc _ here _ allocated => exact .quiet rfl rfl
  | upkeep _ here upkeep => exact .quiet rfl rfl
  | reclaim _ here idle calm reclamation =>
    dsimp only
    rw [Session.emitAll_eq]
    exact .quiet rfl rfl
  | receive _ here idle calm proper received => exact .quiet rfl rfl
  | unstash _ here idle calm stashed => exact .quiet rfl rfl
  | drain _ here idle calm all => exact disciplined.elim
  | close _ here calm => exact disciplined.elim
  | begin _ idle flies => exact .quiet rfl rfl
  | report _ idle flies => exact .quiet rfl rfl
  | @fire _ i c cell handle rest here idle flies =>
    have waiting : Moment.Awaits ⟨s, hand, running, flight⟩ (.endBinding cell handle) := by
      refine Or.inr ?_
      rw [flies]
      exact List.mem_cons_self
    exact .fire pinning waiting (pinning.collectors i c here)
  | skip _ runs => exact .quiet rfl rfl
  | @actPin _ i c handle rest here runs =>
    have leaves := pinning.running (.pin handle) (by
      rw [runs]
      exact List.mem_cons_self)
    cases leaves
  | @actUnpin _ i c handle rest here runs =>
    have leaves := pinning.running (.unpin handle) (by
      rw [runs]
      exact List.mem_cons_self)
    cases leaves
  | @disarm _ i c p ref here held =>
    refine .one pinning.ownership held ?_ ?_
    · intro d
      dsimp only
      rw [s.cell_disarm]
      by_cases mine : ref.cell? = some d
      · rw [if_pos mine]
        simp [mine]
        rfl
      · rw [if_neg mine]
        simp [mine]
    · intro h
      dsimp only
      rw [s.mem_pinned_disarm, pinning.collectors i c here]
      simp
  | @discard _ p ref held =>
    refine .discardAll pinning [ref] ?_ rfl rfl
    intro r listed
    rw [List.mem_singleton.mp listed]
    exact ⟨p, held⟩
  | @clear _ i c p ref b target here held binding bound dead =>
    have mine : ref.cell? = some b.cell := WeakReference.cell?_of_binding binding
    refine .one pinning.ownership held ?_ ?_
    · intro d
      dsimp only
      rw [Session.cell_emit, s.cell_clearDead, mine, Option.some.injEq]
      by_cases same : d = b.cell
      · rw [if_pos same]
        simp [same]
      · have apart : ¬ b.cell = d := fun e => same e.symm
        rw [if_neg same]
        simp [apart]
    · intro h
      dsimp only
      rw [Session.pinned_emit, s.mem_pinned_clearDead, pinning.collectors i c here]
      simp [Session.isBound, binding]
  | empty _ here unbound => exact .quiet rfl rfl
  | vacate _ here unbound => exact .quiet rfl rfl
  | dropHand _ here unbound => exact .quiet rfl rfl
  | thin _ here unbound => exact .quiet rfl rfl
  | @prune _ x map here =>
    refine .discardAll pinning map.prune.2 ?_ rfl rfl
    intro r taken
    obtain ⟨key, present, _⟩ := (map.mem_prune r).mp taken
    refine ⟨.entry x key, ?_⟩
    change s.entry? x key = some r
    unfold Session.entry?
    rw [here]
    exact present
  | @dropMap _ x map here =>
    refine .discardAll pinning map.references ?_ rfl rfl
    intro r taken
    obtain ⟨key, present⟩ := (map.mem_references r).mp taken
    refine ⟨.entry x key, ?_⟩
    change s.entry? x key = some r
    unfold Session.entry?
    rw [here]
    exact present
  | newRef _ => cases quiet
  | take _ free => cases quiet
  | attach _ here held loose unbound calm received => cases quiet
  | enlist _ here => cases quiet
  | place _ here map vacant => cases quiet

theorem size_pinSets_le (move : Move t m m') :
    m.session.pinSets.size ≤ m'.session.pinSets.size := by
  obtain ⟨s, hand, running, flight⟩ := m
  cases move with
  | tornDown _ x =>
    unfold Session.recordTornDown
    dsimp only
    split <;> exact Nat.le_refl _
  | newPinSet _ => simp [Session.newPinSet]
  | modifyPins _ pins f => simp [Session.modifyPins]
  | newHeap _ config =>
    simp [Session.newHeap, Session.newPinSet, Session.freshRuntime, Session.recordInitialized,
      Session.emit]
  | reclaim _ here idle calm reclamation =>
    dsimp only
    rw [Session.emitAll_eq]
    exact Nat.le_refl _
  | close _ here calm => simp [Session.clearPins, Session.modifyPins]
  | fire _ here idle flies =>
    exact Nat.le_of_eq ((s.logRun _).sameButBindings_endBinding _ _ _).pinSets.symm
  | actPin _ here runs => simp [Session.pin, Session.modifyPins]
  | actUnpin _ here runs => simp [Session.unpin, Session.modifyPins]
  | disarm _ here held => exact Nat.le_of_eq (s.sameButBindings_disarm _ _).pinSets.symm
  | discard _ held => exact Nat.le_of_eq (s.sameButBindings_discard _).pinSets.symm
  | clear _ here held binding bound dead =>
    exact Nat.le_of_eq (s.sameButBindings_clearDead _ _ _).pinSets.symm
  | prune _ here => exact Nat.le_of_eq (s.sameButBindings_discardAll _).pinSets.symm
  | dropMap _ here => exact Nat.le_of_eq (s.sameButBindings_discardAll _).pinSets.symm
  | @attach _ i c c' p ref target ran a here held loose unbound calm received =>
    rw [(Moment.put_same _ p _).pinSets]
    cases ran <;> simp [Session.arrive, Session.pin, Session.modifyPins]
  | _ => exact Nat.le_refl _

/-- What the running finalizer has to do comes out of a finalizer that waited. -/
theorem running (move : Move t m m') {a : Action} (runs : a ∈ m'.running) :
    a ∈ m.running ∨ ∃ label actions, m.Awaits (.user label actions) ∧ a ∈ actions := by
  cases move with
  | @begin _ label actions rest idle flies =>
    refine Or.inr ⟨label, actions, Or.inr ?_, runs⟩
    rw [flies]
    exact List.mem_cons_self
  | skip _ before =>
    rw [before]
    exact Or.inl (List.mem_cons_of_mem _ runs)
  | attach _ here held loose unbound calm received =>
    rw [(Moment.put_same _ _ _).running] at runs
    exact Or.inl runs
  | _ => exact Or.inl runs

end Move

namespace Pinning
variable {P : Nat} {m m' : Moment}

theorem of_move (pinning : Pinning P m) {t : Tag} (move : Move t m m')
    (disciplined : t.isDisciplined)
    (bindings : ∀ p a b, m'.held p = some a → a.binding = some b → b.pins = P)
    (exact : ∀ h, h ∈ m'.session.pinned P ↔
      ∃ p a, m'.held p = some a ∧ a.id = h ∧ m'.session.isBound a = true) : Pinning P m' where
  ownership := pinning.ownership.move move
  inside := Nat.lt_of_lt_of_le pinning.inside move.size_pinSets_le
  collectors j d' there := by
    rcases move.evolves.descends there with ⟨d, here, becomes⟩ | ⟨new, _⟩
    · exact becomes.pins.trans (pinning.collectors j d here)
    · rw [new] at disciplined
      exact disciplined.elim
  bindings := bindings
  calm f waiting := by
    rcases move.awaits pinning.ownership.heaps waiting with waited | fresh | ⟨c, h, same⟩
    · exact pinning.calm f waited
    · cases t <;> first | exact fresh.elim | exact fresh ▸ disciplined
    · rw [same]
      rfl
  running a runs := by
    rcases move.running runs with before | ⟨label, actions, waited, listed⟩
    · exact pinning.running a before
    · exact List.all_eq_true.mp (pinning.calm _ waited) a listed
  exact := exact

theorem fades (pinning : Pinning P m) {t : Tag} (move : Move t m m')
    (disciplined : t.isDisciplined) (quiet : t.brings = false) : Pinning P m' := by
  have noNew := move.noNew pinning.ownership.heaps quiet
  have pays := move.pays pinning disciplined quiet
  refine pinning.of_move move disciplined ?_ ?_
  · intro p a b here binding
    obtain ⟨a', before, _, empty | same⟩ := noNew.held p a here
    · rw [empty] at binding
      cases binding
    · exact pinning.bindings p a' b before (same.symm.trans binding)
  · intro h
    rw [pays, pinning.exact]
    constructor
    · rintro ⟨⟨p, a, here, named, bound⟩, kept⟩
      have still : m'.session.isBound a = true := by
        cases state : m'.session.isBound a with
        | true => rfl
        | false => exact absurd ⟨p, a, here, named, bound, state⟩ kept
      obtain ⟨d, mine, state⟩ := (Session.isBound_iff _ _).mp still
      obtain ⟨target, at_target⟩ := (Cell.isBound_iff _).mp state
      exact ⟨p, a, noNew.stays d target p a at_target here mine, named, still⟩
    · rintro ⟨p, a, here, named, bound⟩
      obtain ⟨d, mine, state⟩ := (Session.isBound_iff _ _).mp bound
      obtain ⟨target, at_target⟩ := (Cell.isBound_iff _).mp state
      obtain ⟨b, before, its⟩ := noNew.cell here mine
      have stays := noNew.stays d target p b at_target before its
      rw [here] at stays
      cases stays
      have bound_before : m.session.isBound a = true := by
        refine (Session.isBound_iff _ _).mpr ⟨d, mine, ?_⟩
        rw [noNew.bound d target at_target]
        rfl
      refine ⟨⟨p, a, before, named, bound_before⟩, ?_⟩
      rintro ⟨q, e, there, named', _, ended⟩
      have same := pinning.ownership.ids p q a e before there (named.trans named'.symm)
      rw [← same, before] at there
      cases there
      rw [bound] at ended
      cases ended

theorem rearranged (pinning : Pinning P m) {t : Tag} (move : Move t m m')
    (disciplined : t.isDisciplined) (rearranges : Rearranges m m')
    (pins : m'.session.pinSets = m.session.pinSets) : Pinning P m' := by
  refine pinning.of_move move disciplined ?_ ?_
  · intro p a b here binding
    rcases rearranges.came p a here with ⟨empty, _⟩ | ⟨q, before⟩
    · rw [empty] at binding
      cases binding
    · exact pinning.bindings q a b before binding
  · intro h
    rw [Session.pinned_congr pins, pinning.exact]
    constructor
    · rintro ⟨p, a, here, named, bound⟩
      obtain ⟨q, there⟩ := rearranges.stays p a here bound
      exact ⟨q, a, there, named, (rearranges.isBound a).trans bound⟩
    · rintro ⟨p, a, here, named, bound⟩
      rw [rearranges.isBound] at bound
      rcases rearranges.came p a here with ⟨empty, _⟩ | ⟨q, before⟩
      · rw [Session.isBound, empty] at bound
        cases bound
      · exact ⟨q, a, before, named, bound⟩

/-- A binding arrives with its pin, or without both if its finalizer ran at once. -/
theorem attach (pinning : Pinning P m) {i : Nat} {h : HandleId} {target : ObjectRef}
    (move : Move (.bind i h target) m m') : Pinning P m' := by
  obtain ⟨p, ref, b, c, c', ran, _, attaches⟩ := move.attaches
  have set : c.heap.pins = P := pinning.collectors i c attaches.here
  refine pinning.of_move move trivial ?_ ?_
  · intro q a b' there binding
    rcases attaches.held_cases there with ⟨_, new⟩ | ⟨_, before⟩
    · subst new
      cases binding
      exact attaches.pins.trans set
    · exact pinning.bindings q a b' before binding
  · have roots : c'.heap.pins = P := attaches.received.pins.1.trans set
    have pins (g : HandleId) : g ∈ m'.session.pinned P ↔
        (ran = false ∧ g = ref.id) ∨ g ∈ m.session.pinned P := by
      have sets := attaches.same.pinSets
      cases ran with
      | true =>
        rw [Session.pinned_congr (s := m.session) sets]
        simp
      | false =>
        rw [Session.pinned_congr (s := m.session.pin c'.heap.pins ref.id) sets,
          Session.mem_pinned_pin, roots]
        simp [pinning.inside]
    -- Others keep their state, since none of them has the new cell.
    have other {q : Place} {a : WeakReference} (there : m.held q = some a) :
        m'.session.isBound a = m.session.isBound a :=
      Session.isBound_congr fun n mine =>
        attaches.cell_of_lt (pinning.ownership.inside q a n there mine)
    intro g
    rw [pins]
    constructor
    · intro pinned
      rcases pinned with ⟨kept, named⟩ | before
      · refine ⟨p, _, (attaches.held p).trans (if_pos rfl), named.symm, ?_⟩
        rw [attaches.isBound_new, kept]
        rfl
      · obtain ⟨q, a, there, named, bound⟩ := (pinning.exact g).mp before
        have elsewhere : q ≠ p := by
          intro at_p
          rw [at_p, attaches.was] at there
          cases there
          rw [attaches.unbound] at bound
          cases bound
        exact ⟨q, a, (attaches.held q).trans ((if_neg elsewhere).trans there), named,
          (other there).trans bound⟩
    · rintro ⟨q, a, there, named, bound⟩
      rcases attaches.held_cases there with ⟨_, new⟩ | ⟨_, before⟩
      · subst new
        rw [attaches.isBound_new] at bound
        cases ran with
        | true => cases bound
        | false => exact Or.inl ⟨rfl, named.symm⟩
      · rw [other before] at bound
        exact Or.inr ((pinning.exact g).mpr ⟨q, a, before, named, bound⟩)

theorem move (pinning : Pinning P m) {t : Tag} (move : Move t m m')
    (disciplined : t.isDisciplined) : Pinning P m' := by
  cases quiet : t.brings with
  | false => exact pinning.fades move disciplined quiet
  | true =>
    cases t with
    | arrive p =>
      refine pinning.rearranged move disciplined move.rearranges ?_
      cases move <;> rfl
    | bind i h x => exact pinning.attach move
    | _ => cases quiet

end Pinning

/-- As long as there is no collector, nobody has a binding. -/
structure NothingBound (m : Moment) : Prop where
  ownership : Ownership m
  collectors : m.session.collectors.size = 0
  empty : ∀ p a, m.held p = some a → a.binding = none

theorem NothingBound.gone {m : Moment} (nothingBound : NothingBound m) (i : Nat) :
    m.session.collector? i = none := by
  have outside : m.session.collectors.size ≤ i := nothingBound.collectors ▸ Nat.zero_le i
  unfold Session.collector?
  rw [Array.getElem?_eq_none outside]
  rfl

theorem NothingBound.move {m m' : Moment} (nothingBound : NothingBound m) {t : Tag}
    (move : Move t m m') (disciplined : t.isDisciplined) : NothingBound m' where
  ownership := nothingBound.ownership.move move
  collectors := by
    rw [move.evolves.size]
    · exact nothingBound.collectors
    · intro new
      rw [new] at disciplined
      exact disciplined
  empty := by
    cases quiet : t.brings with
    | false =>
      intro p a here
      obtain ⟨b, before, _, empty | same⟩ := (move.noNew nothingBound.ownership.heaps quiet).held p
        a here
      · exact empty
      · exact same.trans (nothingBound.empty p b before)
    | true =>
      intro p a here
      cases t with
      | arrive q =>
        rcases move.rearranges.came p a here with ⟨empty, _⟩ | ⟨q, before⟩
        · exact empty
        · exact nothingBound.empty q a before
      | bind i h x =>
        cases move with
        | attach _ collector _ _ _ _ _ =>
          rw [nothingBound.gone] at collector
          cases collector
      | _ => cases quiet

/-- A heap that comes first finds no binding and has no pin. -/
theorem NothingBound.newHeap {s : Session} (nothingBound : NothingBound ⟨s, none, [], []⟩)
    (config : HeapConfig) :
    Pinning s.pinSets.size ⟨(s.newHeap config).1, none, [], []⟩ := by
  have move := Move.newHeap ⟨s, none, [], []⟩ config
  have held (p : Place) : Moment.held ⟨(s.newHeap config).1, none, [], []⟩ p =
      Moment.held ⟨s, none, [], []⟩ p := Moment.held_congr rfl rfl rfl p
  constructor
  · exact nothingBound.ownership.move move
  · simp [Session.newHeap, Session.newPinSet, Session.freshRuntime, Session.recordInitialized,
      Session.emit]
  · intro j d' there
    rcases move.evolves.descends there with ⟨d, here, _⟩ | ⟨_, _, config', new⟩
    · have gone : s.collector? j = none := nothingBound.gone j
      have here : s.collector? j = some d := here
      rw [gone] at here
      cases here
    · rw [new]
  · intro p a b here binding
    rw [held] at here
    rw [nothingBound.empty p a here] at binding
    cases binding
  · intro f waiting
    rcases move.awaits nothingBound.ownership.heaps waiting with
      (⟨j, d, here, _⟩ | flying) | fresh | ⟨c, h, same⟩
    · have gone : s.collector? j = none := nothingBound.gone j
      have here : s.collector? j = some d := here
      rw [gone] at here
      cases here
    · cases flying
    · exact fresh.elim
    · rw [same]
      rfl
  · intro a runs
    cases runs
  · intro h
    have none_pinned : (s.newHeap config).1.pinned s.pinSets.size = ∅ := by
      simp [Session.pinned, Session.newHeap, Session.newPinSet, Session.freshRuntime,
        Session.recordInitialized, Session.emit, Array.getD_eq_getD_getElem?]
    dsimp only
    rw [none_pinned]
    constructor
    · exact fun pinned => absurd pinned (Roster.not_mem_empty h)
    · rintro ⟨p, a, here, _, bound⟩
      rw [held] at here
      rw [Session.isBound, nothingBound.empty p a here] at bound
      cases bound

namespace Session

def freeReferences (s : Session) : List WeakReference := s.refs.toList.filterMap id

/-- The references of the entries of all maps. -/
def entryReferences (s : Session) : List WeakReference :=
  (s.maps.toList.filterMap id).flatMap WeakValueMap.references

section Counting
variable {s : Session}

theorem mem_freeReferences {a : WeakReference} :
    a ∈ s.freeReferences ↔ ∃ r, s.ref? r = some a := mem_filterMap_toList_iff

theorem mem_maps {map : WeakValueMap} :
    map ∈ s.maps.toList.filterMap id ↔ ∃ x, s.map? x = some map := mem_filterMap_toList_iff

theorem mem_entryReferences {a : WeakReference} :
    a ∈ s.entryReferences ↔ ∃ x key, s.entry? x key = some a := by
  unfold entryReferences entry?
  simp only [List.mem_flatMap, mem_maps, WeakValueMap.mem_references]
  constructor
  · rintro ⟨map, ⟨x, here⟩, key, present⟩
    refine ⟨x, key, ?_⟩
    rw [here]
    exact present
  · rintro ⟨x, key, here⟩
    obtain ⟨map, there, present⟩ := Option.bind_eq_some_iff.mp here
    exact ⟨map, ⟨x, there⟩, key, present⟩

theorem pairwise_filterMap_toList {α β : Type} {slots : Array α} {f : α → Option β}
    {R : β → β → Prop}
    (apart : ∀ (i j : Nat) (a b : β), i ≠ j → slots[i]?.bind f = some a → slots[j]?.bind f = some
    b →
      R a b) :
    (slots.toList.filterMap f).Pairwise R := by
  rw [List.pairwise_filterMap, List.pairwise_iff_getElem]
  intro i j inside inside' before a at_i b at_j
  refine apart i j a b (Nat.ne_of_lt before) ?_ ?_
  · rw [← Array.getElem?_toList, List.getElem?_eq_getElem inside]
    exact at_i
  · rw [← Array.getElem?_toList, List.getElem?_eq_getElem inside']
    exact at_j

theorem pairwise_references (ownership : Ownership ⟨s, none, [], []⟩) :
    (s.freeReferences ++ s.entryReferences).Pairwise fun a b => a.id ≠ b.id := by
  have stands {x : Nat} {map : WeakValueMap} {key : String} {a : WeakReference}
      (here : s.map? x = some map) (present : map.entries.get? key = some a) :
      Moment.held ⟨s, none, [], []⟩ (.entry x key) = some a := by
    change (s.map? x).bind _ = _
    rw [here]
    exact present
  rw [List.pairwise_append]
  refine ⟨?_, ?_, ?_⟩
  · refine pairwise_filterMap_toList fun i j a b other here there same => ?_
    exact other (Place.ref.inj (ownership.ids (.ref i) (.ref j) a b here there same))
  · unfold entryReferences
    rw [List.pairwise_flatMap]
    constructor
    · intro map listed
      obtain ⟨x, here⟩ := mem_maps.mp listed
      unfold WeakValueMap.references Table.values
      rw [List.pairwise_map]
      refine (List.pairwise_map.mp map.entries.nodup).imp_of_mem ?_
      intro e e' pair pair' apart same
      have place := ownership.ids _ _ _ _ (stands here (Table.get?_eq_some_iff.mpr pair))
        (stands here (Table.get?_eq_some_iff.mpr pair')) same
      exact apart (Place.entry.inj place).2
    · refine pairwise_filterMap_toList fun i j map map' other here there a listed b listed' same =>
        ?_
      obtain ⟨key, present⟩ := (map.mem_references a).mp listed
      obtain ⟨key', present'⟩ := (map'.mem_references b).mp listed'
      have place := ownership.ids _ _ a b (stands here present) (stands there present') same
      exact other (Place.entry.inj place).1
  · intro a free b entry same
    obtain ⟨r, here⟩ := mem_freeReferences.mp free
    obtain ⟨x, key, there⟩ := mem_entryReferences.mp entry
    cases ownership.ids (.ref r) (.entry x key) a b here there same

theorem size_of_exact (ownership : Ownership ⟨s, none, [], []⟩) {pins : Roster HandleId}
    (exact : ∀ h, h ∈ pins ↔ ∃ p ref, s.held p = some ref ∧ ref.id = h ∧ s.isBound ref = true) :
    pins.size = s.freeReferences.countP s.isBound + s.entryReferences.countP s.isBound := by
  have nodup : (((s.freeReferences ++ s.entryReferences).filter s.isBound).map
      WeakReference.id).Nodup :=
    List.pairwise_map.mpr ((pairwise_references ownership).filter _)
  have same : pins.members.Perm
      (((s.freeReferences ++ s.entryReferences).filter s.isBound).map WeakReference.id) := by
    rw [List.perm_ext_iff_of_nodup pins.nodup nodup]
    intro h
    rw [← Roster.mem_def, exact]
    simp only [List.mem_map, List.mem_filter, List.mem_append, mem_freeReferences,
      mem_entryReferences]
    constructor
    · rintro ⟨p, ref, here, named, bound⟩
      refine ⟨ref, ⟨?_, bound⟩, named⟩
      cases p with
      | ref r => exact Or.inl ⟨r, here⟩
      | entry x key => exact Or.inr ⟨x, key, here⟩
      | hand => cases here
    · rintro ⟨ref, ⟨stands, bound⟩, named⟩
      rcases stands with ⟨r, here⟩ | ⟨x, key, here⟩
      · exact ⟨.ref r, ref, here, named, bound⟩
      · exact ⟨.entry x key, ref, here, named, bound⟩
  unfold Roster.size
  rw [same.length_eq, List.length_map, ← List.countP_eq_length_filter, List.countP_append]

end Counting

end Session

namespace Session
variable {s : Session} {ops : List Op}

theorem nothingBound_run (nothingBound : NothingBound ⟨s, none, [], []⟩)
    (disciplined : ∀ op ∈ ops, op.isDisciplined = true) :
    NothingBound ⟨s.after ops, none, [], []⟩ := by
  refine after_keeps nothingBound.ownership (fun op listed _ _ _ _ allowed _ move nothingBound =>
    ?_) nothingBound
  exact nothingBound.move move (allowed.isDisciplined (disciplined op listed))

theorem pinning_run {P : Nat} (pinning : Pinning P ⟨s, none, [], []⟩)
    (disciplined : ∀ op ∈ ops, op.isDisciplined = true) :
    Pinning P ⟨s.after ops, none, [], []⟩ := by
  refine after_keeps pinning.ownership (fun op listed _ _ _ _ allowed _ move pinning => ?_) pinning
  exact pinning.move move (allowed.isDisciplined (disciplined op listed))

/-- A collector stays while nobody shuts it down. -/
theorem collector?_stays {i : Nat} (here : (s.collector? i).isSome)
    (ownership : Ownership ⟨s, none, [], []⟩) (running : ∀ op ∈ ops, op ≠ .shutDown i) :
    ((s.after ops).collector? i).isSome := by
  refine after_keeps ownership (I := fun m => (m.session.collector? i).isSome) ?_ here
  intro op listed _ t m m' tag _ move there
  obtain ⟨d, there⟩ := Option.isSome_iff_exists.mp there
  have open_still : t ≠ .shutDown i := by
    intro same
    rw [same] at tag
    cases tag with
    | shutDown same => exact running op listed same
  obtain ⟨d', still, _⟩ := move.evolves.stays open_still there
  rw [still]
  rfl

end Session

/-- While one heap is there and nobody else uses its pin set, a handle is pinned exactly while a
reference with that handle is bound. -/
theorem pinned_iff_isBound {before later : List Op} (config : HeapConfig)
    (first : ∀ op ∈ before, op.isDisciplined = true)
    (then_on : ∀ op ∈ later, op.isDisciplined = true) {s : Session}
    (run : s = Session.after {} (before ++ .newHeap config :: later)) :
    ∃ c, s.collector? 0 = some c ∧
      (∀ h, h ∈ s.pinned c.heap.pins ↔
        ∃ p ref, s.held p = some ref ∧ ref.id = h ∧ s.isBound ref = true) ∧
      (s.pinned c.heap.pins).size =
        s.freeReferences.countP s.isBound + s.entryReferences.countP s.isBound := by
  have start : NothingBound ⟨{}, none, [], []⟩ := by
    refine ⟨ownership_empty, rfl, ?_⟩
    intro p a here
    cases p <;> simp [Moment.held, Session.ref?, Session.entry?, Session.map?] at here
  have nothingBound := Session.nothingBound_run start first
  have pinning := Session.pinning_run (nothingBound.newHeap config) then_on
  rw [Session.after_append, Session.after_cons] at run
  change s = (((Session.after {} before).newHeap config).1).after later at run
  have there : ((((Session.after {} before).newHeap config).1).collector? 0).isSome := by
    rw [Session.collector?_newHeap, if_pos nothingBound.collectors.symm]
    rfl
  have stays := Session.collector?_stays there
    (nothingBound.ownership.move (Move.newHeap _ config)) (by
      intro op listed same
      have disciplined := then_on op listed
      rw [same] at disciplined
      cases disciplined)
  rw [← run] at pinning stays
  obtain ⟨c, here⟩ := Option.isSome_iff_exists.mp stays
  have exact (h : HandleId) : h ∈ s.pinned c.heap.pins ↔
      ∃ p ref, s.held p = some ref ∧ ref.id = h ∧ s.isBound ref = true := by
    rw [pinning.collectors 0 c here, pinning.exact]
    simp only [Moment.held_atRest]
  exact ⟨c, here, exact, Session.size_of_exact pinning.ownership exact⟩

def scriptedBinds : List Op :=
  [.alloc 0 .plain, .script 0 [.now .direct, .stash .indirect], .newRefTo 0 ⟨0, 0⟩,
    .newRefTo 0 ⟨0, 0⟩, .newMap, .mapInsert 0 0 "key" ⟨0, 0⟩]

theorem pinned_of_scriptedBinds :
    ∃ s c, s = Session.after {} ([] ++ .newHeap {} :: scriptedBinds) ∧ s.collector? 0 = some c ∧
      (s.pinned c.heap.pins).size = 2 := by
  obtain ⟨c, here, _, count⟩ := pinned_iff_isBound {} (show ∀ op ∈ [], _ by decide)
    (show ∀ op ∈ scriptedBinds, _ by decide) rfl
  exact ⟨_, c, rfl, here, count.trans (by decide +kernel)⟩

end WeakRefs
