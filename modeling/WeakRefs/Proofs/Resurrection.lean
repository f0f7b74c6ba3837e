import WeakRefs.Proofs.BindingOrigins

/-!
# No resurrection

What a reference answers is the target of the last bind of its handle that succeeded, or nothing.
Once a binding is over, it is over until the next bind that succeeds.
-/

namespace WeakRefs

namespace Session

/-- The target of the last bind of a handle in a run that succeeds. -/
def lastBound (s : Session) (h : HandleId) : List Op → Option ObjectRef
  | [] => none
  | op :: rest => ((s.perform op).1.lastBound h rest).or (s.binds? op h)

/-- What ends a binding for good: an operation after which a reference with the handle is over. -/
inductive Ends (s : Session) (op : Op) (h : HandleId) : Prop where
  | read {i r : Nat} {ref : WeakReference} : op = .read i r → (s.collector? i).isSome →
    s.ref? r = some ref → ref.id = h → (s.perform op).2 = .object none → Ends s op h
  | object {i r : Nat} {ref : WeakReference} {x : InstanceId} : op = .object i r →
    (s.collector? i).isSome → s.ref? r = some ref → ref.id = h → ref.runtime? = some x →
    s.isAlive x = true → (s.perform op).2 = .object none → Ends s op h
  | defined {i r : Nat} {label : String} {actions : List Action} {ref : WeakReference}
      {x : InstanceId} : op = .refDefine i r label actions → (s.collector? i).isSome →
    s.ref? r = some ref → ref.id = h → ref.runtime? = some x → s.isAlive x = true →
    (s.object (.reference r) i ref).2 = none → Ends s op h
  | got {i m : Nat} {key : String} {ref : WeakReference} {x : InstanceId} : op = .mapGet i m key →
    (s.collector? i).isSome → Session.entry? (s.pruneMap m) m key = some ref → ref.id = h →
    ref.runtime? = some x → s.isAlive x = true → (s.perform op).2 = .object none → Ends s op h
  | removed {i m : Nat} {key : String} {ref : WeakReference} : op = .mapRemove i m key →
    (s.collector? i).isSome → Session.entry? (s.pruneMap m) m key = some ref → ref.id = h →
    Ends s op h
  | swept {i m : Nat} {map : WeakValueMap} {key : String} {ref : WeakReference} :
    op = .mapUpdate i m → (s.collector? i).isSome → (s.pruneMap m).map? m = some map →
    map.entries.get? key = some ref → ref.id = h →
    key ∈ ((s.pruneMap m).sweepEntries i map.entries.pairs).2 → Ends s op h
  | released {i r : Nat} {ref : WeakReference} : op = .releaseRef i r →
    (s.collector? i).isSome → s.ref? r = some ref → ref.id = h → Ends s op h
  /-- By whomever, a user finalizer for one. -/
  | emptied {p : Place} {ref : WeakReference} : (s.perform op).1.held p = some ref →
    ref.id = h → ref.binding = none → Ends s op h
  | fired {p : Place} {ref : WeakReference} {b : Binding} {handle : HandleId} :
    (s.perform op).1.held p = some ref → ref.id = h → ref.binding = some b →
    .endBinding b.cell handle ∈ (s.perform op).1.runs → Ends s op h

end Session

/-- A reference with the handle is bound to `last`, if it is bound at all. -/
def Faithful (h : HandleId) (last : Option ObjectRef) (s : Session) : Prop :=
  ∀ p a t, s.held p = some a → a.id = h → s.target? a = some t → last = some t

theorem Faithful.of_holder {s : Session} (ownership : Ownership ⟨s, none, [], []⟩) {h : HandleId}
    {last : Option ObjectRef} {p : Place} {a : WeakReference} (here : s.held p = some a)
    (named : a.id = h) (target : ∀ t, s.target? a = some t → last = some t) :
    Faithful h last s := by
  intro q b t there named' bound
  have same := ownership.ids p q a b ((Moment.held_atRest s p).trans here)
    ((Moment.held_atRest s q).trans there) (named.trans named'.symm)
  rw [same, there] at here
  cases here
  exact target t bound

namespace Session
variable {s : Session} {op : Op} {h : HandleId} {t : ObjectRef}

theorem cell_of_bind {focus : Focus} {i : Nat} {ref : WeakReference} {target : ObjectRef}
    {a : Affiliation} (answer : (s.bind focus i ref target).2.2 = .ok a) :
    ∃ b, (s.bind focus i ref target).2.1 = { ref with binding := some b } ∧
      b.cell = s.cells.size := by
  unfold bind at answer ⊢
  split
  · rename_i gone
    rw [gone] at answer
    cases answer
  · rename_i c here
    rw [here] at answer
    dsimp only at answer ⊢
    split
    · rename_i e refused
      rw [refused] at answer
      cases answer
    · exact ⟨_, rfl, rfl⟩

/-- A bind of the table that succeeds leaves the reference with a new cell. -/
theorem held_of_bound {i r : Nat} {obj : ObjectRef}
    (bound : s.boundBy? (.bind i r obj) = some (h, t)) :
    ∃ ref b, (s.perform (.bind i r obj)).1.ref? r = some ref ∧ ref.id = h ∧
      ref.binding = some b ∧ b.cell = s.cells.size := by
  have whole : ∃ ref, s.ref? r = some ref ∧ ref.id = h ∧
      ∃ a, (s.bind (.reference r) i ref obj).2.2 = .ok a := by
    unfold boundBy? perform at bound
    split at bound
    · rename_i same answer
      cases same
      obtain ⟨ref, here, named⟩ := Option.map_eq_some_iff.mp bound
      refine ⟨ref, here, congrArg Prod.fst named, ?_⟩
      dsimp only at answer
      rw [withRef_of_ref? here] at answer
      cases made : (s.bind (.reference r) i ref obj).2.2 with
      | ok a => exact ⟨a, rfl⟩
      | error e =>
        have refused : attachedReply (s.bind (.reference r) i ref obj).2.2 = .failed e := by
          rw [made]
          rfl
        have answer : attachedReply (s.bind (.reference r) i ref obj).2.2 = _ := answer
        rw [refused] at answer
        cases answer
    · rename_i same _
      cases same
    · rename_i same _
      cases same
    · cases bound
  obtain ⟨ref, here, named, a, answer⟩ := whole
  obtain ⟨b, made, fresh⟩ := cell_of_bind answer
  have session : (s.perform (.bind i r obj)).1 = (s.bindRef i r ref obj).1 :=
    congrArg Prod.fst (withRef_of_ref? here _)
  have still := ((stableView_held (.reference r)).bind s i ref obj).trans here
  refine ⟨{ ref with binding := some b }, b, ?_, named, rfl, fresh⟩
  rw [session, ← made]
  unfold bindRef
  rw [ref?_setRef, if_pos ⟨rfl, lt_size_of_ref? _ still⟩]

theorem faithful_perform (ownership : Ownership ⟨s, none, [], []⟩) {last : Option ObjectRef}
    (faithful : Faithful h last s) (op : Op) :
    Faithful h ((s.binds? op h).or last) (s.perform op).1 := by
  intro p a t here named target
  rcases origin ownership op here target with ⟨q, before, was⟩ | bound
  · cases binds : s.binds? op h with
    | none => exact faithful q a t before named was
    | some x =>
      exfalso
      have bound := boundBy?_of_binds? binds
      obtain ⟨d, mine, _⟩ := (target?_eq_some_iff _ _).mp was
      have inside := ownership.inside q a d ((Moment.held_atRest s q).trans before) mine
      have old := issued_of_held ownership before
      rw [named] at old
      unfold boundBy? at bound
      split at bound
      · rename_i i r obj _ answer
        have bound : s.boundBy? (.bind i r obj) = some (h, x) := by
          unfold boundBy?
          rw [answer]
          exact bound
        obtain ⟨ref, b, there, same, binding, fresh⟩ := held_of_bound bound
        have place := (ownership_perform ownership (.bind i r obj)).ids p (.ref r) a ref
          ((Moment.held_atRest _ p).trans here) there (named.trans same.symm)
        rw [place] at here
        cases Option.some.inj (here.symm.trans there)
        cases (WeakReference.cell?_of_binding binding).symm.trans mine
        exact absurd fresh (Nat.ne_of_lt inside)
      · cases bound
        exact old rfl
      · cases bound
        exact old rfl
      · cases bound
  · rw [named] at bound
    rw [bound]
    rfl

theorem faithful_run (ownership : Ownership ⟨s, none, [], []⟩) {last : Option ObjectRef}
    (faithful : Faithful h last s) (ops : List Op) :
    Faithful h ((s.lastBound h ops).or last) (s.after ops) := by
  induction ops generalizing s last with
  | nil => exact faithful
  | cons op rest ih =>
    have next := ih (ownership_perform ownership op) (faithful_perform ownership faithful op)
    unfold lastBound
    rw [Option.or_assoc]
    exact next

section Answers
variable {i : Nat} {ref : WeakReference} {focus : Focus}

theorem target?_of_read (answer : (s.read i ref).2 = some t) : s.target? ref = some t := by
  unfold read at answer
  split at answer
  · rename_i c b here binding
    split at answer
    · cases answer
    · rename_i target state
      split at answer
      · cases answer
        exact (s.target?_of_binding binding).trans state
      · cases answer
  · cases answer

theorem unbound_of_read (here : (s.collector? i).isSome) (answer : (s.read i ref).2 = none) :
    (s.read i ref).1.target? ref = none := by
  obtain ⟨c, here⟩ := Option.isSome_iff_exists.mp here
  unfold read at answer ⊢
  rw [here] at answer ⊢
  cases binding : ref.binding with
  | none =>
    rw [target?, binding]
    rfl
  | some b =>
    rw [binding] at answer
    dsimp only at answer ⊢
    cases state : (s.cell b.cell).get? with
    | none =>
      exact (s.target?_of_binding binding).trans state
    | some target =>
      rw [state] at answer
      dsimp only at answer ⊢
      split
      · rename_i reachable
        rw [if_pos reachable] at answer
        cases answer
      · rw [target?_of_binding _ binding, cell_emit, cell_clearDead, if_pos rfl]
        exact Option.isNone_iff_eq_none.mp (Option.isSome_eq_false_iff.mp (Cell.isBound_clear _))

/-- Bringing a reference up to date binds nothing. -/
theorem target?_of_refresh (ownership : Ownership ⟨s, none, [], []⟩)
    (target : (s.refresh focus i ref).target? ref = some t) : s.target? ref = some t := by
  have moves := (refresh_strides (T := fun tag => tag.brings = false) (s := s) (i := i) rfl
    (fun _ => rfl) none focus ref).moves
  obtain ⟨d, mine, bound⟩ := (target?_eq_some_iff _ _).mp target
  have before : (s.refresh focus i ref).cell d = .bound t → s.cell d = .bound t := by
    refine moves.keeps ownership (I := fun m => m.session.cell d = .bound t → s.cell d = .bound t)
      ?_ id
    intro tag m m' quiet ownership move before bound
    exact before ((move.noNew ownership.heaps quiet).bound d t bound)
  exact (target?_eq_some_iff _ _).mpr ⟨d, mine, before bound⟩

theorem collector?_refresh (here : (s.collector? i).isSome) :
    ((s.refresh focus i ref).collector? i).isSome := by
  have moves := (refresh_strides (T := fun tag => tag ≠ .shutDown i) (s := s) (i := i)
    (fun same => nomatch same) (fun _ same => nomatch same) none focus ref).moves
  refine moves.preserves (I := fun m => (m.session.collector? i).isSome) ?_ here
  intro tag m m' calm move there
  obtain ⟨d, there⟩ := Option.isSome_iff_exists.mp there
  obtain ⟨d', still, _⟩ := move.evolves.stays calm there
  exact Option.isSome_iff_exists.mpr ⟨d', still⟩

theorem unbound_of_object {x : InstanceId} (here : (s.collector? i).isSome)
    (runtime : ref.runtime? = some x) (alive : s.isAlive x = true)
    (answer : (s.object focus i ref).2 = none) : (s.object focus i ref).1.target? ref = none := by
  have up_to_date : s.object focus i ref = (s.refresh focus i ref).read i ref := by
    unfold object
    rw [runtime]
    exact if_pos alive
  rw [up_to_date] at answer ⊢
  exact unbound_of_read (collector?_refresh here) answer

theorem unbound_of_defineOn {f : Finalizer} {x : InstanceId} (here : (s.collector? i).isSome)
    (runtime : ref.runtime? = some x) (alive : s.isAlive x = true)
    (answer : (s.object focus i ref).2 = none) :
    (s.defineOn focus i ref f).1.target? ref = none := by
  have refused : (s.defineOn focus i ref f).1 = (s.object focus i ref).1 := by
    unfold defineOn
    dsimp only
    rw [answer]
  rw [refused]
  exact unbound_of_object here runtime alive answer

theorem unbound_of_releaseRef {r : Nat} (roots : Nat) (here : s.ref? r = some ref) :
    (s.releaseRef roots r).target? ref = none := by
  unfold releaseRef
  rw [here]
  exact target?_eq_none (isBound_disarm _ _ _)

section Entries
variable {m : Nat} {key : String} (here : (s.collector? i).isSome)
include here

theorem unbound_of_mapGet {x : InstanceId}
    (left : Session.entry? (s.pruneMap m) m key = some ref) (runtime : ref.runtime? = some x)
    (alive : s.isAlive x = true) (answer : (s.mapGet i m key).2 = none) :
    (s.mapGet i m key).1.target? ref = none := by
  have done : s.mapGet i m key = (((s.pruneMap m).object (.map m) i ref).1.pruneMap m,
      ((s.pruneMap m).object (.map m) i ref).2) := by
    obtain ⟨c, here⟩ := Option.isSome_iff_exists.mp here
    unfold mapGet
    rw [here]
    dsimp only
    rw [left]
  rw [done] at answer ⊢
  have ended := unbound_of_object (by rwa [collector?_pruneMap]) runtime
    (by rwa [isAlive, alive_pruneMap]) answer
  refine Option.eq_none_iff_forall_ne_some.mpr fun t target => ?_
  rw [target?_of_pruneMap target] at ended
  cases ended

theorem unbound_of_mapRemove (left : Session.entry? (s.pruneMap m) m key = some ref) :
    (s.mapRemove i m key).1.target? ref = none := by
  obtain ⟨c, here⟩ := Option.isSome_iff_exists.mp here
  unfold mapRemove
  rw [here]
  dsimp only
  rw [left]
  exact target?_eq_none (isBound_disarm _ _ _)

theorem unbound_of_mapUpdate {map : WeakValueMap} (present : (s.pruneMap m).map? m = some map)
    (listed : map.entries.get? key = some ref)
    (swept : key ∈ ((s.pruneMap m).sweepEntries i map.entries.pairs).2) :
    (s.mapUpdate i m).target? ref = none := by
  obtain ⟨ref', pair, unbound⟩ := (s.pruneMap m).unbound_of_swept i swept
  cases listed.symm.trans (Table.get?_eq_some_iff.mpr pair)
  have cells : (s.mapUpdate i m).cells =
      ((s.pruneMap m).sweepEntries i map.entries.pairs).1.cells := by
    obtain ⟨c, here⟩ := Option.isSome_iff_exists.mp here
    unfold mapUpdate
    rw [here]
    dsimp only
    rw [present]
    dsimp only
    split <;> rfl
  exact target?_eq_none ((isBound_congr fun d _ => cell_congr cells d).trans unbound)

end Entries

theorem target?_of_object (ownership : Ownership ⟨s, none, [], []⟩)
    (answer : (s.object focus i ref).2 = some t) : s.target? ref = some t := by
  unfold object at answer
  split at answer
  · cases answer
  · split at answer
    · exact target?_of_refresh ownership (target?_of_read answer)
    · cases answer

end Answers

/-- Where the reference that has a handle is over, and nothing binds the handle, nobody with the
handle is bound. -/
theorem faithful_of_over (ownership : Ownership ⟨s, none, [], []⟩) {p : Place} {ref : WeakReference}
    (stood : s.held p = some ref) (named : ref.id = h) (binds : s.binds? op h = none)
    (ended : (s.perform op).1.target? ref = none) : Faithful h none (s.perform op).1 := by
  intro q a t there same target
  rcases origin ownership op there target with ⟨q', before, _⟩ | bound
  · have place := ownership.ids q' p a ref ((Moment.held_atRest s q').trans before)
      ((Moment.held_atRest s p).trans stood) (same.trans named.symm)
    rw [place, stood] at before
    cases before
    rw [ended] at target
    cases target
  · rw [same, binds] at bound
    cases bound

theorem faithful_of_ends (ownership : Ownership ⟨s, none, [], []⟩) (ends : s.Ends op h) :
    Faithful h none (s.perform op).1 := by
  have after := ownership_perform ownership op
  cases ends with
  | @read i r ref same there here named answer =>
    subst same
    refine faithful_of_over ownership (p := .ref r) here named rfl ?_
    have done : s.perform (.read i r) = ((s.read i ref).1, .object (s.read i ref).2) :=
      withRef_of_ref? here _
    rw [done] at answer ⊢
    exact unbound_of_read there (Reply.object.inj answer)
  | @object i r ref x same there here named runtime alive answer =>
    subst same
    refine faithful_of_over ownership (p := .ref r) here named rfl ?_
    have done : s.perform (.object i r) = ((s.object (.reference r) i ref).1,
        .object (s.object (.reference r) i ref).2) := withRef_of_ref? here _
    rw [done] at answer ⊢
    exact unbound_of_object there runtime alive (Reply.object.inj answer)
  | @defined i r label actions ref x same there here named runtime alive answer =>
    subst same
    refine faithful_of_over ownership (p := .ref r) here named rfl ?_
    have done : (s.perform (.refDefine i r label actions)).1 =
        (s.defineOn (.reference r) i ref (.user label actions)).1 :=
      congrArg Prod.fst (withRef_of_ref? here _)
    rw [done]
    exact unbound_of_defineOn there runtime alive answer
  | @got i m key ref x same there left named runtime alive answer =>
    subst same
    refine faithful_of_over ownership (p := .entry m key) (entry?_of_pruneMap left).1 named rfl ?_
    exact unbound_of_mapGet there left runtime alive (Reply.object.inj answer)
  | @removed i m key ref same there left named =>
    subst same
    refine faithful_of_over ownership (p := .entry m key) (entry?_of_pruneMap left).1 named rfl ?_
    exact unbound_of_mapRemove there left
  | @swept i m map key ref same there present listed named swept =>
    subst same
    have left : Session.entry? (s.pruneMap m) m key = some ref := by
      rw [ entry?, present]
      exact listed
    refine faithful_of_over ownership (p := .entry m key) (entry?_of_pruneMap left).1 named rfl ?_
    exact unbound_of_mapUpdate there present listed swept
  | @released i r ref same there here named =>
    subst same
    refine faithful_of_over ownership (p := .ref r) here named rfl ?_
    obtain ⟨c, there⟩ := Option.isSome_iff_exists.mp there
    have done : (s.perform (.releaseRef i r)).1 = s.releaseRef c.heap.pins r := by
      change ((s.pinsOf i).map fun roots => s.releaseRef roots r).getD s = _
      unfold pinsOf
      rw [there]
      rfl
    rw [done]
    exact unbound_of_releaseRef c.heap.pins here
  | @emptied p ref here named empty =>
    refine .of_holder after (p := p) here named ?_
    intro t target
    have target : (s.perform op).1.target? ref = some t := target
    rw [target?, empty] at target
    cases target
  | @fired p ref b handle here named binding ran =>
    refine .of_holder after (p := p) here named ?_
    intro t target
    have unbound := (after.ran b.cell handle ran).2
    have bound := ((s.perform op).1.target?_of_binding binding).symm.trans target
    rw [Cell.isBound, bound] at unbound
    cases unbound

end Session

/-- A reference answers the target of its last bind that succeeded, or nothing. Once its binding is
over, it answers nothing until a later bind succeeds. -/
theorem no_resurrection {ops : List Op} {p : Place} {ref : WeakReference}
    (held : (Session.after {} ops).held p = some ref) (focus : Focus) (i : Nat) :
    (∀ t, ((Session.after {} ops).read i ref).2 = some t ∨
        ((Session.after {} ops).object focus i ref).2 = some t →
      Session.lastBound {} ref.id ops = some t) ∧
    ∀ before op later, ops = before ++ op :: later → (Session.after {} before).Ends op ref.id →
      (Session.after {} (before ++ [op])).lastBound ref.id later = none →
      ((Session.after {} ops).read i ref).2 = none ∧
        ((Session.after {} ops).object focus i ref).2 = none := by
  have ownership := Session.ownership_after ops
  have answers {t : ObjectRef} (answer : ((Session.after {} ops).read i ref).2 = some t ∨
      ((Session.after {} ops).object focus i ref).2 = some t) :
      (Session.after {} ops).target? ref = some t := by
    rcases answer with answer | answer
    · exact Session.target?_of_read answer
    · exact Session.target?_of_object ownership answer
  constructor
  · intro t answer
    have start : Faithful ref.id none {} := by
      intro p a t there
      cases p <;> simp [Session.held, Session.ref?, Session.entry?, Session.map?] at there
    have faithful := Session.faithful_run ownership_empty start ops
    rw [Option.or_none] at faithful
    exact faithful p ref t held rfl (answers answer)
  · intro before op later whole ends unbound
    have ended := Session.faithful_of_ends (Session.ownership_after before) ends
    have next : Session.after {} (before ++ [op]) = ((Session.after {} before).perform op).1 :=
      Session.after_append _ _ _
    rw [← next] at ended
    have faithful := Session.faithful_run (Session.ownership_after (before ++ [op])) ended later
    have run : (Session.after {} (before ++ [op])).after later = Session.after {} ops := by
      rw [← Session.after_append, whole, List.append_assoc]
      rfl
    rw [unbound, run] at faithful
    have nothing (t : ObjectRef) (target : (Session.after {} ops).target? ref = some t) :
      False := by
      have impossible := faithful p ref t held rfl target
      cases impossible
    constructor
    · cases answer : ((Session.after {} ops).read i ref).2 with
      | none => rfl
      | some t => exact (nothing t (answers (Or.inl answer))).elim
    · cases answer : ((Session.after {} ops).object focus i ref).2 with
      | none => rfl
      | some t => exact (nothing t (answers (Or.inr answer))).elim

/-- A collector that denies a live target once and affirms it ever after. -/
theorem denied_target_stays_gone :
    let ops : List Op := [.newHeap {}, .alloc 0 .plain, .newRefTo 0 ⟨0, 0⟩,
      .reach 0 ⟨0, 0⟩ (some false), .read 0 0, .reach 0 ⟨0, 0⟩ (some true)]
    let ref : WeakReference := { id := ⟨1⟩, binding := some ⟨0, .indirect, ⟨1⟩, 0⟩ }
    ((Session.after {} ops).read 0 ref).2 = none ∧
      ((Session.after {} ops).object .idle 0 ref).2 = none := by
  intro ops ref
  have held : (Session.after {} ops).held (.ref 0) = some ref := by decide +kernel
  have before : (Session.after {} (ops.take 4)).ref? 0 = some ref := by decide +kernel
  refine (no_resurrection held .idle 0).2 (ops.take 4) (.read 0 0) (ops.drop 5) rfl ?_
    (by decide +kernel)
  exact .read rfl (by decide +kernel) before rfl (by decide +kernel)

end WeakRefs