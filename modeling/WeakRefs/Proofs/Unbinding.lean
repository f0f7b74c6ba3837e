import WeakRefs.Proofs.PinDiscipline

/-!
# Bindings that end against several heaps

`owner` tells of each cell whose binding it is of and in which pin set its pin is. `Unbinds owner s
s'` says that on the way from `s` to `s'` bindings only end, each giving its pin back where it is.
-/

namespace WeakRefs

def Collector.Keeps (c : Collector) (f : Finalizer) : Prop :=
  f ∈ c.stash ∨ ∃ q, f ∈ c.heap.pendingOf q

/-- A finalizer that a collector with this pin set may run ends no binding of others. -/
def Finalizer.Fits (owner : Nat → HandleId × Nat) (size pins : Nat) (f : Finalizer) : Prop :=
  f.leavesPins = true ∧ ∀ c handle, f = .endBinding c handle → c < size ∧ owner c = (handle, pins)

namespace Session

def Owns (owner : Nat → HandleId × Nat) (s : Session) (a : WeakReference) : Prop :=
  ∀ b, a.binding = some b → b.cell < s.cells.size ∧ owner b.cell = (a.id, b.pins)

/-- While a reference is bound and the heap of its binding is there, that is heap `i`. -/
def IsHeapOf (s : Session) (i : Nat) (a : WeakReference) : Prop :=
  ∀ b k, a.binding = some b → (s.cell b.cell).isBound = true → s.pinsOf k = some b.pins → k = i

/-- Heap `i` is right for the reference in a place. -/
def IsHeapAt (s : Session) (i : Nat) (p : Place) : Prop := ∀ a, s.held p = some a → s.IsHeapOf i a

/-- While a reference is bound and the heap of its binding is there, `roots` is the pin set of that
heap. -/
def IsPinSetOf (s : Session) (roots : Nat) (a : WeakReference) : Prop :=
  ∀ b k, a.binding = some b → (s.cell b.cell).isBound = true → s.pinsOf k = some b.pins →
    b.pins = roots

/-- If the action of a user finalizer releases a reference, `roots` is the pin set to do it on. -/
def ReleasesOwn (s : Session) (focus : Focus) (roots : Nat) : Action → Prop
  | .release r => focus ≠ .reference r → ∀ a, s.ref? r = some a → s.IsPinSetOf roots a
  | _ => True

/-- Actions that are carried out one after the other release references through their own heaps. -/
def ActsOnOwn (s : Session) (focus : Focus) (roots : Nat) : List Action → Prop
  | [] => True
  | action :: rest =>
    s.ReleasesOwn focus roots action ∧ (s.act focus roots action).1.ActsOnOwn focus roots rest

/-- So does a finalizer when it is delivered. -/
def RunsOnOwn (s : Session) (focus : Focus) (roots : Nat) : Finalizer → Prop
  | .user label actions => (s.logRun (.user label actions)).ActsOnOwn focus roots actions
  | _ => True

/-- So does a batch of finalizers. -/
def DeliversOnOwn (s : Session) (focus : Focus) (roots : Nat) : List Finalizer → Prop
  | [] => True
  | f :: rest =>
    s.RunsOnOwn focus roots f ∧ (s.deliver focus roots f).DeliversOnOwn focus roots rest

/-- Bindings end, and each gives back its pin. -/
structure Unbinds (owner : Nat → HandleId × Nat) (s s' : Session) : Prop where
  size : s'.cells.size = s.cells.size
  ends : ∀ c, (s'.cell c).isBound = true → (s.cell c).isBound = true
  pins : ∀ P h, h ∈ s'.pinned P → h ∈ s.pinned P
  paid : ∀ c h P, owner c = (h, P) → (s.cell c).isBound = true → h ∈ s'.pinned P →
    (s'.cell c).isBound = true
  held : ∀ p a b, s'.held p = some a → a.binding = some b → s.held p = some a
  keeps : ∀ i c', s'.collector? i = some c' → ∃ c, s.collector? i = some c ∧
    c'.heap.pins = c.heap.pins ∧ ∀ f, c'.Keeps f → c.Keeps f ∨ f.Fits owner s.cells.size c.heap.pins
  stays : ∀ k P h, s.pinsOf k = some P → h ∈ s'.pinned P → s'.pinsOf k = some P

/-- Pins, bindings and finalizers are as `owner` has them. -/
structure PinsOwned (owner : Nat → HandleId × Nat) (s : Session) : Prop where
  pins : ∀ P h, h ∈ s.pinned P → ∃ c, owner c = (h, P) ∧ (s.cell c).isBound = true
  heap : ∀ P h, h ∈ s.pinned P → ∃ k, s.pinsOf k = some P
  owns : ∀ p a, s.held p = some a → s.Owns owner a
  fits : ∀ i c f, s.collector? i = some c → c.Keeps f → f.Fits owner s.cells.size c.heap.pins

variable {owner : Nat → HandleId × Nat} {s s' s'' : Session} {i : Nat} {c c' : Collector}
variable {a : WeakReference}

theorem pinsOf_of_keeps (keeps : ∀ i c', s'.collector? i = some c' → ∃ c, s.collector? i = some c ∧
      c'.heap.pins = c.heap.pins) {k P : Nat} (there : s'.pinsOf k = some P) :
    s.pinsOf k = some P := by
  unfold pinsOf at *
  obtain ⟨c', here', same'⟩ := Option.map_eq_some_iff.mp there
  obtain ⟨c, here, same⟩ := keeps k c' here'
  rw [here, ← same', same]
  rfl

theorem held_setRef {r : Nat} {x : Option WeakReference} {p : Place}
    (there : (s.setRef r x).held p = some a) : x = some a ∨ s.held p = some a := by
  cases p with
  | ref q =>
    change (s.setRef r x).ref? q = some a at there
    rw [ref?_setRef] at there
    split at there
    · exact Or.inl there
    · exact Or.inr there
  | entry m key => exact Or.inr there
  | hand => cases there

theorem held_setMap {m : Nat} (inside : m < s.maps.size) {x : Option WeakValueMap} {p : Place}
    (there : (s.setMap m x).held p = some a) :
    (∃ key map, p = .entry m key ∧ x = some map ∧ map.entries.get? key = some a) ∨
      s.held p = some a := by
  cases p with
  | ref q => exact Or.inr there
  | entry y key =>
    change Session.entry? (s.setMap m x) y key = some a at there
    rw [entry?_setMap inside] at there
    split at there
    · rename_i same
      obtain ⟨map, new, listed⟩ := Option.bind_eq_some_iff.mp there
      exact Or.inl ⟨key, map, same ▸ rfl, new, listed⟩
    · exact Or.inr there
  | hand => cases there

theorem IsHeapOf.isPinSetOf (ofHeap : s.IsHeapOf i a) (here : s.collector? i = some c) :
    s.IsPinSetOf c.heap.pins a := by
  intro b k binding bound there
  rw [ofHeap b k binding bound there, pinsOf, here] at there
  exact (Option.some.inj there).symm

namespace Unbinds

theorem refl (owner : Nat → HandleId × Nat) (s : Session) : Unbinds owner s s where
  size := rfl
  ends _ bound := bound
  pins _ _ pinned := pinned
  paid _ _ _ _ bound _ := bound
  held _ _ _ held _ := held
  keeps _ c here := ⟨c, here, rfl, fun _ => Or.inl⟩
  stays _ _ _ here _ := here

theorem trans (first : Unbinds owner s s') (next : Unbinds owner s' s'') : Unbinds owner s s'' where
  size := next.size.trans first.size
  ends c bound := first.ends c (next.ends c bound)
  pins P h pinned := first.pins P h (next.pins P h pinned)
  paid c h P own bound pinned :=
    next.paid c h P own (first.paid c h P own bound (next.pins P h pinned)) pinned
  held p a b held binding := first.held p a b (next.held p a b held binding) binding
  keeps i c'' there := by
    obtain ⟨c', here', same', kept'⟩ := next.keeps i c'' there
    obtain ⟨c, here, same, kept⟩ := first.keeps i c' here'
    refine ⟨c, here, same'.trans same, fun f keeps => ?_⟩
    rcases kept' f keeps with keeps | fits
    · exact kept f keeps
    · rw [first.size, same] at fits
      exact Or.inr fits
  stays k P h here pinned := next.stays k P h (first.stays k P h here (next.pins P h pinned)) pinned

theorem pinsOf (unbinds : Unbinds owner s s') {k P : Nat} (there : s'.pinsOf k = some P) :
    s.pinsOf k = some P := by
  refine pinsOf_of_keeps (fun i c' here => ?_) there
  obtain ⟨c, before, same, _⟩ := unbinds.keeps i c' here
  exact ⟨c, before, same⟩

theorem owns (unbinds : Unbinds owner s s') (owns : s.Owns owner a) : s'.Owns owner a := by
  intro b binding
  rw [unbinds.size]
  exact owns b binding

theorem isHeapOf (unbinds : Unbinds owner s s') (ofHeap : s.IsHeapOf i a) : s'.IsHeapOf i a :=
  fun b k binding bound there => ofHeap b k binding (unbinds.ends _ bound) (unbinds.pinsOf there)

theorem isHeapAt (unbinds : Unbinds owner s s') {p : Place} (ofHeap : s.IsHeapAt i p) :
    s'.IsHeapAt i p :=
  fun a here b k binding =>
    unbinds.isHeapOf (ofHeap a (unbinds.held p a b here binding)) b k binding

end Unbinds

namespace PinsOwned

theorem unbinds (pinsOwned : PinsOwned owner s) (unbinds : Unbinds owner s s') :
    PinsOwned owner s' where
  pins P h pinned := by
    obtain ⟨c, own, bound⟩ := pinsOwned.pins P h (unbinds.pins P h pinned)
    exact ⟨c, own, unbinds.paid c h P own bound pinned⟩
  heap P h pinned := by
    obtain ⟨k, here⟩ := pinsOwned.heap P h (unbinds.pins P h pinned)
    exact ⟨k, unbinds.stays k P h here pinned⟩
  owns p a held b binding :=
    unbinds.owns (pinsOwned.owns p a (unbinds.held p a b held binding)) b binding
  fits i c' f here keeps := by
    obtain ⟨c, before, same, kept⟩ := unbinds.keeps i c' here
    rw [unbinds.size, same]
    rcases kept f keeps with keeps | fits
    · exact pinsOwned.fits i c f before keeps
    · exact fits

end PinsOwned

namespace Unbinds

theorem still (cells : s'.cells = s.cells) (pinned : ∀ P, s'.pinned P = s.pinned P)
    (collectors : s'.collectors = s.collectors)
    (held : ∀ p a b, s'.held p = some a → a.binding = some b → s.held p = some a) :
    Unbinds owner s s' := by
  have cell (c : Nat) : s'.cell c = s.cell c := by
    unfold Session.cell
    rw [cells]
  refine ⟨congrArg Array.size cells, ?_, ?_, ?_, held, ?_, ?_⟩
  · intro c
    rw [cell]
    exact id
  · intro P h
    rw [pinned]
    exact id
  · intro c h P _ bound _
    rw [cell]
    exact bound
  · intro i c there
    exact ⟨c, (collector?_congr collectors i).symm.trans there, rfl, fun _ => Or.inl⟩
  · intro k P h here _
    exact (pinsOf_congr collectors k).trans here

theorem quiet (cells : s'.cells = s.cells) (pinSets : s'.pinSets = s.pinSets)
    (collectors : s'.collectors = s.collectors) (refs : s'.refs = s.refs)
    (maps : s'.maps = s.maps) :
    Unbinds owner s s' := by
  refine still cells (fun P => congrArg (·.getD P ∅) pinSets) collectors fun p a b there _ => ?_
  rw [held_congr refs maps] at there
  exact there

theorem emit (s : Session) (e : Event) : Unbinds owner s (s.emit e) := quiet rfl rfl rfl rfl rfl

theorem emitAll (s : Session) (es : List Event) : Unbinds owner s (s.emitAll es) := by
  rw [emitAll_eq]
  exact quiet rfl rfl rfl rfl rfl

theorem ended (same : SameButBindings s s') (size : s'.cells.size = s.cells.size) {d roots : Nat}
    {handle : HandleId} {own : HandleId × Nat} (owned : owner d = own)
    (right : (s.cell d).isBound = true → own = (handle, roots) ∨ ¬ own.1 ∈ s.pinned own.2)
    (cell : ∀ e, (s'.cell e).isBound = true ↔ (s.cell e).isBound = true ∧ e ≠ d)
    (pinned : ∀ q h, h ∈ s'.pinned q ↔
      h ∈ s.pinned q ∧ ¬ ((s.cell d).isBound = true ∧ q = roots ∧ h = handle)) :
    Unbinds owner s s' where
  size := size
  ends c bound := ((cell c).mp bound).1
  pins P h there := ((pinned P h).mp there).1
  paid c h P mine bound there := by
    obtain ⟨before, kept⟩ := (pinned P h).mp there
    refine (cell c).mpr ⟨bound, fun same => ?_⟩
    subst same
    rw [mine] at owned
    subst owned
    rcases right bound with right | absent
    · cases right
      exact kept ⟨bound, rfl, rfl⟩
    · exact absent before
  held p a b there _ := by
    rw [held_congr same.refs same.maps] at there
    exact there
  keeps i c there := ⟨c, (same.collector? i).symm.trans there, rfl, fun _ => Or.inl⟩
  stays k P h here _ := (pinsOf_congr same.collectors k).trans here

theorem setCollector (here : s.collector? i = some c) (pins : c'.heap.pins = c.heap.pins)
    (keeps : ∀ f, c'.Keeps f → c.Keeps f ∨ f.Fits owner s.cells.size c.heap.pins) :
    Unbinds owner s (s.setCollector i c') where
  size := rfl
  ends _ bound := bound
  pins _ _ pinned := pinned
  paid _ _ _ _ bound _ := bound
  held _ _ _ held _ := held
  keeps j d there := by
    rw [s.collector?_setCollector here] at there
    split at there
    · rename_i same
      cases there
      exact ⟨c, same ▸ here, pins, keeps⟩
    · exact ⟨d, there, rfl, fun _ => Or.inl⟩
  stays k P _ before _ := by
    unfold Session.pinsOf at *
    rw [s.collector?_setCollector here]
    split
    · rename_i same
      rw [same, here] at before
      rw [← before]
      exact congrArg some pins
    · exact before

theorem supersede {b : Binding} {roots : Nat} (binding : a.binding = some b)
    (owns : s.Owns owner a) (right : (s.cell b.cell).isBound = true →
      (a.id, b.pins) = (a.id, roots) ∨ ¬ a.id ∈ s.pinned b.pins) :
    Unbinds owner s (s.supersede roots b.cell a.id) := by
  refine ended (s.sameButBindings_supersede _ _ _) (s.size_cells_supersede _ _ _)
    (owns b binding).2 right (fun e => ?_) (s.mem_pinned_supersede _ _ _)
  rw [cell_supersede]
  by_cases same : e = b.cell <;> simp [same, Cell.isBound, Cell.get?]

theorem discard (owns : s.Owns owner a) : Unbinds owner s (s.discard a) := by
  unfold Session.discard
  split
  · rename_i b binding
    exact supersede binding owns fun _ => Or.inl rfl
  · exact refl owner s

theorem discardAll {rs : List WeakReference} (owns : ∀ a ∈ rs, s.Owns owner a) :
    Unbinds owner s (s.discardAll rs) := by
  induction rs generalizing s with
  | nil => exact refl owner s
  | cons a rest ih =>
    have first := discard (owns a List.mem_cons_self)
    exact first.trans (ih fun b listed => first.owns (owns b (List.mem_cons_of_mem _ listed)))

section Own
variable {roots : Nat} (pinsOwned : PinsOwned owner s)
include pinsOwned

theorem right_of_isPinSetOf {b : Binding} (binding : a.binding = some b)
    (own : s.IsPinSetOf roots a) (bound : (s.cell b.cell).isBound = true) :
    (a.id, b.pins) = (a.id, roots) ∨ ¬ a.id ∈ s.pinned b.pins := by
  by_cases pinned : a.id ∈ s.pinned b.pins
  · obtain ⟨k, there⟩ := pinsOwned.heap _ _ pinned
    exact Or.inl (by rw [own b k binding bound there])
  · exact Or.inr pinned

theorem disarm (owns : s.Owns owner a) (own : s.IsPinSetOf roots a) :
    Unbinds owner s (s.disarm roots a) := by
  unfold Session.disarm
  split
  · rename_i b binding
    exact (supersede binding owns (right_of_isPinSetOf pinsOwned binding own)).trans (emit _ _)
  · exact refl owner s

theorem releaseRef {r : Nat} (own : ∀ a, s.ref? r = some a → s.IsPinSetOf roots a) :
    Unbinds owner s (s.releaseRef roots r) := by
  unfold Session.releaseRef
  split
  · rename_i ref there
    refine (disarm pinsOwned (pinsOwned.owns (.ref r) ref there) (own ref there)).trans
      (still rfl (fun _ => rfl) rfl fun p a b now binding => ?_)
    rcases held_setRef now with new | before
    · cases new
      cases binding
    · exact before
  · exact refl owner s

theorem read (owns : s.Owns owner a) (ofHeap : s.IsHeapOf i a) :
    Unbinds owner s (s.read i a).1 := by
  unfold Session.read
  split
  · rename_i c b here binding
    split
    · exact refl owner s
    · split
      · exact refl owner s
      · refine trans (ended (s.sameButBindings_clearDead _ _ _) (s.size_cells_clearDead _ _ _)
          (owns b binding).2 (right_of_isPinSetOf pinsOwned binding (ofHeap.isPinSetOf here))
            (fun e => ?_)
          (s.mem_pinned_clearDead _ _ _)) (emit _ _)
        rw [cell_clearDead]
        by_cases same : e = b.cell <;> simp [same]
  · exact refl owner s

end Own

section Delivery

theorem dropRef (pinsOwned : PinsOwned owner s) (r : Nat) : Unbinds owner s (s.dropRef r) := by
  unfold Session.dropRef
  split
  · rename_i ref here
    refine (discard (pinsOwned.owns (.ref r) ref here)).trans
      (still rfl (fun _ => rfl) rfl fun p a b there _ => ?_)
    rcases held_setRef there with new | before
    · cases new
    · exact before
  · exact refl owner s

theorem dropMap (pinsOwned : PinsOwned owner s) (m : Nat) : Unbinds owner s (s.dropMap m) := by
  unfold Session.dropMap
  split
  · rename_i map here
    have owns : ∀ a ∈ map.references, s.Owns owner a := by
      intro a listed
      obtain ⟨key, there⟩ := (map.mem_references a).mp listed
      refine pinsOwned.owns (.entry m key) a ?_
      change s.entry? m key = some a
      unfold entry?
      rw [here]
      exact there
    have inside : m < (s.discardAll map.references).maps.size := by
      rw [(s.sameButBindings_discardAll _).maps]
      exact s.lt_size_of_map? here
    refine (discardAll owns).trans (still rfl (fun _ => rfl) rfl fun p a b there _ => ?_)
    rcases held_setMap inside there with ⟨key, map', _, new, _⟩ | before
    · cases new
    · exact before
  · exact refl owner s

theorem onRef {focus : Focus} {r : Nat} {f : WeakReference → Session × ActionReply}
    (unbinds : ∀ ref, Unbinds owner s (f ref).1) : Unbinds owner s (s.onRef focus r f).1 :=
  Session.onRef_induction (refl owner s) fun _ => unbinds

theorem onMap {focus : Focus} {m : Nat} {f : WeakValueMap → Session × ActionReply}
    (unbinds : ∀ map, Unbinds owner s (f map).1) : Unbinds owner s (s.onMap focus m f).1 :=
  Session.onMap_induction (refl owner s) fun _ => unbinds

theorem act (pinsOwned : PinsOwned owner s) (focus : Focus) (roots : Nat) {action : Action}
    (leaves : action.leavesPins = true) (own : s.ReleasesOwn focus roots action) :
    Unbinds owner s (s.act focus roots action).1 := by
  cases action with
  | pin handle => cases leaves
  | unpin handle => cases leaves
  | release r =>
    exact Session.onRef_induction (refl owner s) fun unused _ => releaseRef pinsOwned (own unused)
  | isAlive x => exact refl owner s
  | pinCount pins => exact refl owner s
  | isBound r => exact onRef fun _ => refl owner s
  | dropRef r => exact onRef fun _ => dropRef pinsOwned r
  | mapSize m => exact onMap fun _ => refl owner s
  | dropMap m => exact onMap fun _ => dropMap pinsOwned m

theorem actAll (pinsOwned : PinsOwned owner s) (focus : Focus) (roots : Nat) {actions : List Action}
    (leaves : ∀ action ∈ actions, action.leavesPins = true)
    (own : s.ActsOnOwn focus roots actions) : Unbinds owner s (s.actAll focus roots actions).1 := by
  induction actions generalizing s with
  | nil => exact refl owner s
  | cons action rest ih =>
    have first := act pinsOwned focus roots (leaves action List.mem_cons_self) own.1
    exact first.trans (ih (pinsOwned.unbinds first)
      (fun a listed => leaves a (List.mem_cons_of_mem _ listed)) own.2)

theorem deliver (pinsOwned : PinsOwned owner s) (focus : Focus) {roots : Nat} {f : Finalizer}
    (fits : f.Fits owner s.cells.size roots) (own : s.RunsOnOwn focus roots f) :
    Unbinds owner s (s.deliver focus roots f) := by
  have logged : Unbinds owner s (s.logRun f) := quiet rfl rfl rfl rfl rfl
  refine logged.trans ?_
  cases f with
  | endBinding d handle =>
    refine ended (sameButBindings_endBinding _ _ _ _) (size_cells_endBinding _ _ _ _)
      (fits.2 d handle rfl).2 (fun _ => Or.inl rfl) (fun e => ?_) (mem_pinned_endBinding _ _ _ _)
    change (Session.cell (Session.endBinding _ _ _ _) e).isBound = true ↔ _
    rw [cell_endBinding]
    by_cases same : e = d <;> simp [same]
  | report m key handle =>
    refine still rfl (fun _ => rfl) rfl fun p a b there _ => ?_
    exact (held_report _ m key handle p).symm.trans there
  | user label actions =>
    have leaves : ∀ action ∈ actions, action.leavesPins = true := List.all_eq_true.mp fits.1
    exact (actAll (pinsOwned.unbinds logged) focus roots leaves own).trans
      (quiet rfl rfl rfl rfl rfl)

theorem deliverAll (pinsOwned : PinsOwned owner s) (focus : Focus) {roots : Nat}
    {due : List Finalizer}
    (fits : ∀ f ∈ due, f.Fits owner s.cells.size roots) (own : s.DeliversOnOwn focus roots due) :
    Unbinds owner s (s.deliverAll focus roots due) := by
  induction due generalizing s with
  | nil => exact refl owner s
  | cons f rest ih =>
    have first := deliver pinsOwned focus (fits f List.mem_cons_self) own.1
    refine first.trans (ih (pinsOwned.unbinds first) (fun g listed => ?_) own.2)
    rw [first.size]
    exact fits g (List.mem_cons_of_mem _ listed)

end Delivery

end Unbinds

end Session

end WeakRefs
