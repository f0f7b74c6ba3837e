import WeakRefs.Proofs.Ending
import WeakRefs.Proofs.Moment

/-!
# What an operation uses stays

A user finalizer that is delivered in the midst of an operation can neither release nor drop the
reference or map that the operation uses.
-/

namespace WeakRefs

/-- A view that no delivery changes while `focus` is in use. -/
structure StableView {α : Type} (focus : Focus) (view : Session → α) : Prop where
  congr : ∀ {s s' : Session}, s'.refs = s.refs → s'.maps = s.maps → view s' = view s
  setRef : ∀ (s : Session) (r : Nat) (ref : Option WeakReference),
    focus ≠ .reference r → view (s.setRef r ref) = view s
  setMap : ∀ (s : Session) (x : Nat) (map : Option WeakValueMap),
    focus ≠ .map x → view (s.setMap x map) = view s
  report : ∀ (s : Session) (x : Nat) (key : String) (handle : HandleId),
    view (s.modifyMap x (·.report key handle)) = view s

/-- The places that are in use by an operation. -/
inductive Focus.Covers : Focus → Place → Prop where
  | reference (r : Nat) : Covers (.reference r) (.ref r)
  | entry (m : Nat) (key : String) : Covers (.map m) (.entry m key)

namespace Session

/-- The entries of a map. -/
def entries? (s : Session) (m : Nat) : Option (Table String WeakReference) :=
  (s.map? m).map WeakValueMap.entries

section Views
variable (s : Session)

theorem entry?_eq (m : Nat) (key : String) :
    s.entry? m key = (s.entries? m).bind fun entries => entries.get? key := by
  unfold entry? entries?
  cases s.map? m <;> rfl

theorem held_congr {s s' : Session} (refs : s'.refs = s.refs) (maps : s'.maps = s.maps)
    (p : Place) : s'.held p = s.held p := by
  cases p with
  | ref r => simp only [held, ref?, refs]
  | entry m key => simp only [held, entry?, map?, maps]
  | hand => rfl

theorem entries?_report (x : Nat) (key : String) (handle : HandleId) (m : Nat) :
    (s.modifyMap x (·.report key handle)).entries? m = s.entries? m := by
  unfold entries?
  rw [map?_modifyMap]
  split
  · cases s.map? m <;> rfl
  · rfl

theorem held_report (x : Nat) (key : String) (handle : HandleId) (p : Place) :
    (s.modifyMap x (·.report key handle)).held p = s.held p := by
  cases p with
  | ref r => rfl
  | entry m k =>
    change Session.entry? (s.modifyMap x _) m k = s.entry? m k
    rw [entry?_eq, entry?_eq, entries?_report]
  | hand => rfl

/-- No delivery changes the reference and the map in use. -/
theorem stableView_held {focus : Focus} {p : Place} (covers : focus.Covers p) :
    StableView focus fun s => s.held p where
  congr refs maps := held_congr refs maps p
  setRef s r ref other := by
    cases covers with
    | reference q =>
      have apart : ¬ r = q := fun e => other (e ▸ rfl)
      simp only [held, ref?_setRef, apart, false_and, if_false]
    | entry m key => rfl
  setMap s x map other := by
    cases covers with
    | reference q => rfl
    | entry m key =>
      have apart : ¬ x = m := fun e => other (e ▸ rfl)
      simp only [held, entry?, map?_setMap, apart, false_and, if_false]
  report s x key handle := s.held_report x key handle p

theorem stableView_entries? (m : Nat) : StableView (.map m) fun s => s.entries? m where
  congr refs maps := by simp only [entries?, map?, maps]
  setRef s r ref other := rfl
  setMap s x map other := by
    have apart : ¬ x = m := fun e => other (e ▸ rfl)
    simp only [entries?, map?_setMap, apart, false_and, if_false]
  report s x key handle := s.entries?_report x key handle m

theorem stableView_size_refs (focus : Focus) : StableView focus fun s => s.refs.size where
  congr refs maps := by rw [refs]
  setRef s r ref other := by simp only [setRef, Array.size_setIfInBounds]
  setMap s x map other := rfl
  report s x key handle := rfl

end Views

end Session

namespace StableView
open Session
variable {α : Type} {focus : Focus} {view : Session → α} (fixed : StableView focus view)
variable (s : Session) (roots : Nat)
include fixed

theorem same {s s' : Session} (h : SameButBindings s s') : view s' = view s :=
  fixed.congr h.refs h.maps

theorem releaseRef {r : Nat} (other : focus ≠ .reference r) :
    view (s.releaseRef roots r) = view s := by
  unfold Session.releaseRef
  split
  · exact (fixed.setRef _ _ _ other).trans (fixed.same (s.sameButBindings_disarm roots _))
  · rfl

theorem dropRef {r : Nat} (other : focus ≠ .reference r) : view (s.dropRef r) = view s := by
  unfold Session.dropRef
  split
  · exact (fixed.setRef _ _ _ other).trans (fixed.same (s.sameButBindings_discard _))
  · rfl

theorem dropMap {x : Nat} (other : focus ≠ .map x) : view (s.dropMap x) = view s := by
  unfold Session.dropMap
  split
  · exact (fixed.setMap _ _ _ other).trans (fixed.same (s.sameButBindings_discardAll _))
  · rfl

omit fixed in
theorem onRef {r : Nat} {f : WeakReference → Session × ActionReply}
    (same : focus ≠ .reference r → ∀ ref, view (f ref).1 = view s) :
    view (s.onRef focus r f).1 = view s := onRef_induction (P := fun t => view t = view s) rfl same

omit fixed in
theorem onMap {x : Nat} {f : WeakValueMap → Session × ActionReply}
    (same : focus ≠ .map x → ∀ map, view (f map).1 = view s) :
    view (s.onMap focus x f).1 = view s := onMap_induction (P := fun t => view t = view s) rfl same

theorem act (a : Action) : view (s.act focus roots a).1 = view s := by
  cases a with
  | pin handle => exact fixed.congr rfl rfl
  | unpin handle => exact fixed.congr rfl rfl
  | isAlive x => rfl
  | pinCount pins => rfl
  | isBound r => exact onRef s fun _ _ => rfl
  | release r => exact onRef s fun other _ => fixed.releaseRef s roots other
  | dropRef r => exact onRef s fun other _ => fixed.dropRef s other
  | mapSize x => exact onMap s fun _ _ => rfl
  | dropMap x => exact onMap s fun other _ => fixed.dropMap s other

theorem actAll (actions : List Action) : view (s.actAll focus roots actions).1 = view s := by
  induction actions generalizing s with
  | nil => rfl
  | cons a rest ih => exact (ih (s.act focus roots a).1).trans (fixed.act s roots a)

theorem deliver (f : Finalizer) : view (s.deliver focus roots f) = view s := by
  have logged : view (s.logRun f) = view s := fixed.congr rfl rfl
  cases f with
  | endBinding c handle =>
    exact (fixed.same ((s.logRun _).sameButBindings_endBinding roots c handle)).trans logged
  | report x key handle => exact (fixed.report (s.logRun _) x key handle).trans logged
  | user label actions =>
    have recorded : view (s.deliver focus roots (.user label actions)) =
        view ((s.logRun (.user label actions)).actAll focus roots actions).1 :=
      fixed.congr rfl rfl
    exact recorded.trans ((fixed.actAll (s.logRun _) roots actions).trans logged)

theorem deliverAll (due : List Finalizer) : view (s.deliverAll focus roots due) = view s := by
  induction due generalizing s with
  | nil => rfl
  | cons f rest ih => exact (ih (s.deliver focus roots f)).trans (fixed.deliver s roots f)

variable (i : Nat)

theorem deliverDue (due : List Finalizer) : view (s.deliverDue focus i roots due) = view s := by
  have counted : view (s.deliverDue focus i roots due) = view (s.deliverAll focus roots due) :=
    fixed.congr rfl rfl
  exact counted.trans (fixed.deliverAll s roots due)

theorem collect : view (s.collect focus i).1 = view s := by
  unfold Session.collect
  split
  · rfl
  · have told (t : Session) (f : Heap Finalizer → Heap Finalizer) (e : Event) :
        view ((t.modifyHeap i f).emit e) = view t := fixed.congr rfl rfl
    refine (told _ _ _).trans ?_
    unfold settle
    refine (fixed.deliverDue _ _ i _).trans ?_
    rw [emitAll_eq]
    exact fixed.congr rfl rfl

theorem refresh (r : WeakReference) : view (s.refresh focus i r) = view s := by
  unfold Session.refresh
  split
  · exact fixed.collect s i
  · rfl

theorem define (target : ObjectRef) (f : Finalizer) :
    view (s.define focus i target f).1 = view s := by
  unfold Session.define
  split
  · rfl
  · have advanced : view (s.modifyCollector i Collector.advance) = view s := fixed.congr rfl rfl
    dsimp only
    split
    · unfold attach
      split
      · exact fixed.congr rfl rfl
      · exact (fixed.deliverDue _ _ i _).trans advanced
      · exact advanced
    · exact advanced
    · exact (fixed.deliver _ _ f).trans advanced
    · exact fixed.congr rfl rfl
    · exact advanced

theorem bind (ref : WeakReference) (target : ObjectRef) :
    view (s.bind focus i ref target).1 = view s := by
  unfold Session.bind
  split
  · rfl
  · rename_i c here
    have opened : view s.newCell.1 = view s := fixed.congr rfl rfl
    have defined := (fixed.define s.newCell.1 i target (.endBinding s.newCell.2 ref.id)).trans
      opened
    dsimp only
    split
    · rw [emitAll_eq]
      refine Eq.trans (fixed.congr ?_ ?_) defined
      · rfl
      · rfl
    · have disarmed (t : Session) := fixed.same (t.sameButBindings_disarm c.heap.pins ref)
      have installed (t : Session) : view (t.install c.heap.pins s.newCell.2 ref.id target) =
          view t := by
        unfold install
        split
        · exact fixed.congr rfl rfl
        · rfl
      have told (t : Session) (e : Event) : view (t.emit e) = view t := fixed.congr rfl rfl
      exact (told _ _).trans ((installed _).trans ((disarmed _).trans defined))

theorem bindNew (target : ObjectRef) : view (s.bindNew focus i target).1 = view s := by
  have fresh : view s.freshHandle.1 = view s := fixed.congr rfl rfl
  exact (fixed.bind s.freshHandle.1 i _ target).trans fresh

theorem read (ref : WeakReference) : view (s.read i ref).1 = view s := by
  unfold Session.read
  split
  · rename_i c b here binding
    split
    · rfl
    · split
      · rfl
      · have cleared := fixed.same (s.sameButBindings_clearDead c.heap.pins b.cell ref.id)
        have told : view ((s.clearDead c.heap.pins b.cell ref.id).emit (.clearedOnRead ref.id)) =
            view (s.clearDead c.heap.pins b.cell ref.id) := fixed.congr rfl rfl
        exact told.trans cleared
  · rfl

theorem object (ref : WeakReference) : view (s.object focus i ref).1 = view s := by
  unfold Session.object
  split
  · rfl
  · split
    · exact (fixed.read _ i ref).trans (fixed.refresh s i ref)
    · rfl

end StableView

end WeakRefs
