import WeakRefs.Proofs.Alike

/-!
# What a batch of finalizers comes to

A batch that is delivered on one pin set comes to what its finalizers do, one errand after the
other. But for the pins on that pin set and the order of dead lists, the order of the errands does
not matter.
-/

namespace WeakRefs

/-- One thing that a finalizer does to cells, references and maps. -/
inductive Errand where
  | fire (cell : Nat)
  | report (map : Nat) (key : String) (handle : HandleId)
  | release (ref : Nat)
  | dropRef (ref : Nat)
  | dropMap (map : Nat)
  deriving DecidableEq

/-- What an action does, unless it only asks, or pins. -/
def Action.errand? : Action → Option Errand
  | release r => some (.release r)
  | dropRef r => some (.dropRef r)
  | dropMap m => some (.dropMap m)
  | _ => none

namespace Finalizer

/-- What a finalizer does, in its order. -/
def errands : Finalizer → List Errand
  | endBinding c _ => [.fire c]
  | report m key handle => [.report m key handle]
  | user _ actions => actions.filterMap Action.errand?

end Finalizer

namespace Errand

/-- What a errand adds to the dead list of map `m`. -/
def note? (m : Nat) : Errand → Option (String × HandleId)
  | report n key handle => if n = m then some (key, handle) else none
  | _ => none

end Errand

/-- What errands make of reference `r`. -/
def refAfter (errands : List Errand) (r : Nat) (ref : Option WeakReference) :
    Option WeakReference :=
  if .dropRef r ∈ errands then none
  else if .release r ∈ errands then ref.map WeakReference.emptied
  else ref

/-- What errands make of map `m`. -/
def mapAfter (errands : List Errand) (m : Nat) (map : Option WeakValueMap) : Option WeakValueMap :=
  if .dropMap m ∈ errands then none
  else map.map fun map => { map with dead := map.dead ++ errands.filterMap (Errand.note? m) }

def cellAfter (errands : List Errand) (c : Nat) (cell : Cell ObjectRef) : Cell ObjectRef :=
  if .fire c ∈ errands then cell.fire.1 else cell

def LetGo (errands : List Errand) : Place → Prop
  | .ref r => .release r ∈ errands ∨ .dropRef r ∈ errands
  | .entry m _ => .dropMap m ∈ errands
  | .hand => False

namespace Session

def LetsGo (s : Session) (errands : List Errand) (c : Nat) : Prop :=
  ∃ p a, s.held p = some a ∧ a.cell? = some c ∧ LetGo errands p

/-- All bindings have their pin in one pin set. -/
def AllPinnedIn (s : Session) (P : Nat) : Prop :=
  ∀ p a b, s.held p = some a → a.binding = some b → b.pins = P

end Session

/-- What errands on pin set `P` make of session `s`. -/
structure Outcome (P : Nat) (errands : List Errand) (s t : Session) : Prop where
  alive : t.alive = s.alive
  runtimes : t.runtimes = s.runtimes
  handles : t.handles = s.handles
  collectors : t.collectors = s.collectors
  pins_made : t.pinSets.size = s.pinSets.size
  cells_made : t.cells.size = s.cells.size
  refs_made : t.refs.size = s.refs.size
  maps_made : t.maps.size = s.maps.size
  pinned : ∀ q, q ≠ P → t.pinSets[q]? = s.pinSets[q]?
  refs : ∀ r, t.ref? r = refAfter errands r (s.ref? r)
  maps : ∀ m, t.map? m = mapAfter errands m (s.map? m)
  superseded : ∀ c, s.LetsGo errands c → t.cell c = .superseded
  spared : ∀ c, ¬ s.LetsGo errands c → t.cell c = cellAfter errands c (s.cell c)

section Composition
variable {first next : List Errand}

theorem refAfter_append (r : Nat) (ref : Option WeakReference) :
    refAfter (first ++ next) r ref = refAfter next r (refAfter first r ref) := by
  have twice (ref : Option WeakReference) :
      (ref.map WeakReference.emptied).map WeakReference.emptied =
        ref.map WeakReference.emptied := by
    cases ref <;> rfl
  unfold refAfter
  simp only [List.mem_append]
  by_cases dropped : Errand.dropRef r ∈ next
  · simp [dropped]
  by_cases dropped' : Errand.dropRef r ∈ first
  · simp [dropped']
  by_cases released : Errand.release r ∈ next
  · by_cases released' : Errand.release r ∈ first
    · simp only [dropped, dropped', released, released', or_self, if_true, if_false, twice]
    · simp [dropped, dropped', released, released']
  · simp [dropped, dropped', released]

theorem mapAfter_append (m : Nat) (map : Option WeakValueMap) :
    mapAfter (first ++ next) m map = mapAfter next m (mapAfter first m map) := by
  unfold mapAfter
  simp only [List.mem_append, List.filterMap_append]
  by_cases dropped : Errand.dropMap m ∈ next
  · simp [dropped]
  by_cases dropped' : Errand.dropMap m ∈ first
  · simp [dropped']
  · simp [dropped, dropped', Function.comp_def]

theorem cellAfter_append (c : Nat) (cell : Cell ObjectRef) :
    cellAfter (first ++ next) c cell = cellAfter next c (cellAfter first c cell) := by
  unfold cellAfter
  simp only [List.mem_append]
  by_cases fired : Errand.fire c ∈ next
  · by_cases fired' : Errand.fire c ∈ first
    · simp only [fired, fired', or_self, if_true]
      cases cell <;> rfl
    · simp [fired, fired']
  · simp [fired]

theorem cellAfter_superseded (errands : List Errand) (c : Nat) :
    cellAfter errands c .superseded = .superseded := by
  unfold cellAfter
  split <;> rfl

theorem letGo_append (p : Place) : LetGo (first ++ next) p ↔ LetGo first p ∨ LetGo next p := by
  cases p with
  | ref r =>
    simp only [LetGo, List.mem_append]
    exact or_or_or_comm
  | entry m key => exact List.mem_append
  | hand => simp [LetGo]

end Composition

namespace Outcome
variable {P : Nat} {errands first next : List Errand} {s t u : Session}

/-- Whoever is still bound was there before, and nobody let go of it. -/
theorem held_of_bound (outcome : Outcome P errands s t) {p : Place} {a : WeakReference}
    {b : Binding} (held : t.held p = some a) (binding : a.binding = some b) :
    s.held p = some a ∧ ¬ LetGo errands p := by
  cases p with
  | ref r =>
    change t.ref? r = some a at held
    rw [outcome.refs, refAfter] at held
    split at held
    · cases held
    · rename_i kept
      split at held
      · obtain ⟨a', _, rfl⟩ := Option.map_eq_some_iff.mp held
        cases binding
      · rename_i bound
        exact ⟨held, fun gone => gone.elim bound kept⟩
  | entry m key =>
    obtain ⟨map, there, at_key⟩ := Option.bind_eq_some_iff.mp held
    rw [outcome.maps, mapAfter] at there
    split at there
    · cases there
    · rename_i kept
      obtain ⟨map', present, rfl⟩ := Option.map_eq_some_iff.mp there
      exact ⟨Option.bind_eq_some_iff.mpr ⟨map', present, at_key⟩, kept⟩
  | hand => cases held

theorem held_of_kept (outcome : Outcome P errands s t) {p : Place} {a : WeakReference}
    (held : s.held p = some a) (kept : ¬ LetGo errands p) : t.held p = some a := by
  cases p with
  | ref r =>
    obtain ⟨bound, there⟩ := not_or.mp kept
    change t.ref? r = some a
    rw [outcome.refs, refAfter, if_neg there, if_neg bound]
    exact held
  | entry m key =>
    have kept : .dropMap m ∉ errands := kept
    obtain ⟨map, present, at_key⟩ := Option.bind_eq_some_iff.mp held
    refine Option.bind_eq_some_iff.mpr
      ⟨{ map with dead := map.dead ++ errands.filterMap (Errand.note? m) }, ?_, at_key⟩
    rw [outcome.maps, mapAfter, if_neg kept, present]
    rfl
  | hand => cases held

theorem allPinned (outcome : Outcome P errands s t) (allPinned : s.AllPinnedIn P) :
    t.AllPinnedIn P :=
  fun p a b held binding => allPinned p a b (outcome.held_of_bound held binding).1 binding

theorem letsGo_append (outcome : Outcome P first s t) (c : Nat) :
    s.LetsGo (first ++ next) c ↔ s.LetsGo first c ∨ t.LetsGo next c := by
  constructor
  · rintro ⟨p, a, held, own, gone⟩
    by_cases gone' : LetGo first p
    · exact Or.inl ⟨p, a, held, own, gone'⟩
    · have later := ((letGo_append p).mp gone).resolve_left gone'
      exact Or.inr ⟨p, a, outcome.held_of_kept held gone', own, later⟩
  · rintro (⟨p, a, held, own, gone⟩ | ⟨p, a, held, own, gone⟩)
    · exact ⟨p, a, held, own, (letGo_append p).mpr (Or.inl gone)⟩
    · obtain ⟨b, binding, _⟩ := WeakReference.cell?_eq_some_iff.mp own
      exact ⟨p, a, (outcome.held_of_bound held binding).1, own, (letGo_append p).mpr (Or.inr gone)⟩

/-- What comes of errands comes of them one after the other. -/
theorem trans (outcome : Outcome P first s t) (later : Outcome P next t u) :
    Outcome P (first ++ next) s u where
  alive := later.alive.trans outcome.alive
  runtimes := later.runtimes.trans outcome.runtimes
  handles := later.handles.trans outcome.handles
  collectors := later.collectors.trans outcome.collectors
  pins_made := later.pins_made.trans outcome.pins_made
  cells_made := later.cells_made.trans outcome.cells_made
  refs_made := later.refs_made.trans outcome.refs_made
  maps_made := later.maps_made.trans outcome.maps_made
  pinned q other := (later.pinned q other).trans (outcome.pinned q other)
  refs r := by rw [later.refs, outcome.refs, refAfter_append]
  maps m := by rw [later.maps, outcome.maps, mapAfter_append]
  superseded c gone := by
    by_cases again : t.LetsGo next c
    · exact later.superseded c again
    · have before := ((outcome.letsGo_append c).mp gone).resolve_right again
      rw [later.spared c again, outcome.superseded c before, cellAfter_superseded]
  spared c kept := by
    obtain ⟨kept, kept'⟩ := not_or.mp (mt (outcome.letsGo_append c).mpr kept)
    rw [later.spared c kept', outcome.spared c kept, cellAfter_append]

end Outcome

namespace Session
variable (s : Session) {P q : Nat}

theorem pinSets_supersede (other : q ≠ P) (c : Nat) (handle : HandleId) :
    (s.supersede P c handle).pinSets[q]? = s.pinSets[q]? := by
  rw [supersede_eq]
  dsimp only
  split
  · rw [Array.getElem?_modify, if_neg other.symm]
  · rfl

theorem pinSets_disarm (other : q ≠ P) (a : WeakReference) :
    (s.disarm P a).pinSets[q]? = s.pinSets[q]? := by
  unfold disarm
  split
  · exact s.pinSets_supersede other _ _
  · rfl

theorem pinSets_discard (other : q ≠ P) {a : WeakReference}
    (allPinned : ∀ b, a.binding = some b → b.pins = P) :
    (s.discard a).pinSets[q]? = s.pinSets[q]? := by
  unfold discard
  split
  · rename_i b binding
    rw [allPinned b binding]
    exact s.pinSets_supersede other _ _
  · rfl

theorem pinSets_discardAll (other : q ≠ P) {rs : List WeakReference}
    (allPinned : ∀ a ∈ rs, ∀ b, a.binding = some b → b.pins = P) :
    (s.discardAll rs).pinSets[q]? = s.pinSets[q]? := by
  induction rs generalizing s with
  | nil => rfl
  | cons a rest ih =>
    have first := s.pinSets_discard other (allPinned a List.mem_cons_self)
    exact (ih (s.discard a) fun r listed => allPinned r (List.mem_cons_of_mem _ listed)).trans first

/-- References are let go of, with their pins in pin set `P`. -/
structure EndsOn (P : Nat) (rs : List WeakReference) (s u : Session) : Prop where
  same : SameButBindings s u
  cells_made : u.cells.size = s.cells.size
  pinned : ∀ q, q ≠ P → u.pinSets[q]? = s.pinSets[q]?
  cell : ∀ c, u.cell c = if ∃ a ∈ rs, a.cell? = some c then .superseded else s.cell c

theorem EndsOn.nil (P : Nat) (s : Session) : EndsOn P [] s s where
  same := .refl s
  cells_made := rfl
  pinned _ _ := rfl
  cell c := by simp

theorem endsOn_disarm (P : Nat) (a : WeakReference) : EndsOn P [a] s (s.disarm P a) where
  same := s.sameButBindings_disarm P a
  cells_made := s.size_cells_disarm P a
  pinned _ other := s.pinSets_disarm other a
  cell c := by simp [cell_disarm]

theorem endsOn_discardAll {rs : List WeakReference}
    (allPinned : ∀ a ∈ rs, ∀ b, a.binding = some b → b.pins = P) :
    EndsOn P rs s (s.discardAll rs) where
  same := s.sameButBindings_discardAll rs
  cells_made := s.size_cells_discardAll rs
  pinned _ other := s.pinSets_discardAll other allPinned
  cell c := s.cell_discardAll rs c

end Session

namespace Outcome
open Session
variable {P : Nat} {errands : List Errand} {s t : Session}

theorem refl (P : Nat) (s : Session) : Outcome P [] s s where
  alive := rfl
  runtimes := rfl
  handles := rfl
  collectors := rfl
  pins_made := rfl
  cells_made := rfl
  refs_made := rfl
  maps_made := rfl
  pinned _ _ := rfl
  refs _ := rfl
  maps m := by simp [mapAfter]
  superseded c gone := by
    obtain ⟨p, _, _, _, gone⟩ := gone
    cases p <;> simp [LetGo] at gone
  spared _ _ := rfl

theorem modifyPins (outcome : Outcome P errands s t) (f : Roster HandleId → Roster HandleId) :
    Outcome P errands s (t.modifyPins P f) :=
  { outcome with
    pins_made := by
      unfold Session.modifyPins
      simp only [Array.size_modify]
      exact outcome.pins_made
    pinned := fun q other => by
      unfold Session.modifyPins
      dsimp only
      rw [Array.getElem?_modify, if_neg other.symm]
      exact outcome.pinned q other }

section Errands
variable (s)

theorem not_letsGo_of (kept : ∀ p, ¬ LetGo errands p) (c : Nat) : ¬ s.LetsGo errands c :=
  fun ⟨p, _, _, _, gone⟩ => kept p gone

theorem pinSets_endBinding {q : Nat} (other : q ≠ P) (c : Nat) (handle : HandleId) :
    (s.endBinding P c handle).pinSets[q]? = s.pinSets[q]? := by
  unfold endBinding
  dsimp only
  split
  · exact (Array.getElem?_modify ..).trans (if_neg other.symm)
  · rfl

theorem fire (P c : Nat) (handle : HandleId) :
    Outcome P [.fire c] s (s.endBinding P c handle) := by
  have same := s.sameButBindings_endBinding P c handle
  have kept : ∀ d, ¬ s.LetsGo [.fire c] d := not_letsGo_of s fun p => by
    cases p <;> simp [LetGo]
  exact
    { alive := same.alive
      runtimes := same.runtimes
      handles := same.handles
      collectors := same.collectors
      pins_made := same.pinSets
      cells_made := s.size_cells_endBinding P c handle
      refs_made := congrArg Array.size same.refs
      maps_made := congrArg Array.size same.maps
      pinned := fun q other => pinSets_endBinding s other c handle
      refs := fun r => by simp [refAfter, same.ref?]
      maps := fun m => by simp [mapAfter, same.map?, List.filterMap_cons, Errand.note?]
      superseded := fun d gone => absurd gone (kept d)
      spared := fun d _ => by
        rw [cell_endBinding]
        unfold cellAfter
        by_cases same : d = c <;> simp [same] }

theorem report (P m : Nat) (key : String) (handle : HandleId) :
    Outcome P [.report m key handle] s (s.modifyMap m (·.report key handle)) := by
  have kept : ∀ d, ¬ s.LetsGo [.report m key handle] d := not_letsGo_of s fun p => by
    cases p <;> simp [LetGo]
  exact
    { refl P s with
      maps_made := by
        unfold modifyMap
        simp only [Array.size_modify]
      refs := fun r => by
        simp only [refAfter, List.mem_singleton, reduceCtorEq, if_false]
        rfl
      maps := fun n => by
        rw [map?_modifyMap]
        unfold mapAfter
        by_cases same : m = n
        · simp [same, Errand.note?, WeakValueMap.report]
        · simp [same, Errand.note?]
      superseded := fun d gone => absurd gone (kept d)
      spared := fun d _ => by
        simp only [cellAfter, List.mem_singleton, reduceCtorEq, if_false]
        rfl }

section LettingGo
variable {s}

theorem letsGo_ref {d : Errand} {r : Nat} (lets : d = .release r ∨ d = .dropRef r) (c : Nat) :
    s.LetsGo [d] c ↔ ∃ a, s.ref? r = some a ∧ a.cell? = some c := by
  constructor
  · rintro ⟨p, a, held, own, gone⟩
    rcases lets with rfl | rfl <;> cases p <;> simp [LetGo] at gone
    · exact ⟨a, gone ▸ held, own⟩
    · exact ⟨a, gone ▸ held, own⟩
  · rintro ⟨a, there, own⟩
    refine ⟨.ref r, a, there, own, ?_⟩
    rcases lets with rfl | rfl <;> simp [LetGo]

theorem letsGo_map (m c : Nat) : s.LetsGo [.dropMap m] c ↔
    ∃ map a, s.map? m = some map ∧ a ∈ map.references ∧ a.cell? = some c := by
  constructor
  · rintro ⟨p, a, held, own, gone⟩
    cases p <;> simp [LetGo] at gone
    subst gone
    obtain ⟨map, there, at_key⟩ := Option.bind_eq_some_iff.mp held
    exact ⟨map, a, there, (map.mem_references a).mpr ⟨_, at_key⟩, own⟩
  · rintro ⟨map, a, there, listed, own⟩
    obtain ⟨key, at_key⟩ := (map.mem_references a).mp listed
    refine ⟨.entry m key, a, Option.bind_eq_some_iff.mpr ⟨map, there, at_key⟩, own, ?_⟩
    simp [LetGo]

/-- What becomes of a session in which bindings end, and references or maps are written. -/
theorem of_ends {d : Errand} {u : Session} {rs : List WeakReference}
    {R : Array (Option WeakReference)} {M : Array (Option WeakValueMap)} (ends : EndsOn P rs s u)
    (lets : ∀ c, s.LetsGo [d] c ↔ ∃ a ∈ rs, a.cell? = some c) (calm : ∀ c, d ≠ .fire c)
    (refs_made : R.size = s.refs.size) (maps_made : M.size = s.maps.size)
    (refs : ∀ r, R[r]?.join = refAfter [d] r (s.ref? r))
    (maps : ∀ m, M[m]?.join = mapAfter [d] m (s.map? m)) :
    Outcome P [d] s { u with refs := R, maps := M } where
  alive := ends.same.alive
  runtimes := ends.same.runtimes
  handles := ends.same.handles
  collectors := ends.same.collectors
  pins_made := ends.same.pinSets
  cells_made := ends.cells_made
  refs_made := refs_made
  maps_made := maps_made
  pinned := ends.pinned
  refs := refs
  maps := maps
  superseded c gone := (ends.cell c).trans (if_pos ((lets c).mp gone))
  spared c kept := by
    have other : ¬ Errand.fire c ∈ [d] := fun listed => calm c (List.mem_singleton.mp listed).symm
    rw [cellAfter, if_neg other]
    exact (ends.cell c).trans (if_neg (mt (lets c).mpr kept))

theorem refAfter_singleton {d : Errand} {r : Nat} (kept : d ≠ .release r) (calm : d ≠ .dropRef r)
    (ref : Option WeakReference) : refAfter [d] r ref = ref := by
  simp [refAfter, kept.symm, calm.symm]

theorem mapAfter_singleton {d : Errand} {m : Nat} (calm : d ≠ .dropMap m) (quiet : d.note? m = none)
    (map : Option WeakValueMap) : mapAfter [d] m map = map := by
  simp [mapAfter, calm.symm, quiet]

theorem of_setRef {d : Errand} {r : Nat} {a : WeakReference} {u : Session}
    (lets : d = .release r ∨ d = .dropRef r) (here : s.ref? r = some a) (ends : EndsOn P [a] s u) :
    Outcome P [d] s (u.setRef r (refAfter [d] r (some a))) := by
  have calm (m : Nat) : d ≠ .dropMap m ∧ d.note? m = none := by
    rcases lets with rfl | rfl <;> exact ⟨nofun, rfl⟩
  refine of_ends ends (fun c => ?_) (by rcases lets with rfl | rfl <;> nofun) ?_
    (congrArg Array.size ends.same.maps) (fun q => ?_)
    (fun m => (ends.same.map? m).trans (mapAfter_singleton (calm m).1 (calm m).2 _).symm)
  · rw [letsGo_ref lets, here]
    simp
  · rw [Array.size_setIfInBounds, ends.same.refs]
  · change (u.setRef r _).ref? q = _
    rw [ref?_setRef, ends.same.ref?, ends.same.refs]
    by_cases at_r : r = q
    · subst at_r
      rw [if_pos ⟨rfl, s.lt_size_of_ref? here⟩, here]
    · rw [if_neg fun both => at_r both.1, refAfter_singleton]
      · rcases lets with rfl | rfl <;> simp [at_r]
      · rcases lets with rfl | rfl <;> simp [at_r]

/-- Where there is nobody to let go of, nothing is done. -/
theorem of_gone {d : Errand} {r : Nat} (lets : d = .release r ∨ d = .dropRef r)
    (gone : s.ref? r = none) : Outcome P [d] s s := by
  have calm (m : Nat) : d ≠ .dropMap m ∧ d.note? m = none := by
    rcases lets with rfl | rfl <;> exact ⟨nofun, rfl⟩
  refine of_ends (.nil P s) (fun c => ?_) (by rcases lets with rfl | rfl <;> nofun) rfl rfl
    (fun q => ?_) (fun m => (mapAfter_singleton (calm m).1 (calm m).2 _).symm)
  · rw [letsGo_ref lets, gone]
    simp
  · change s.ref? q = _
    by_cases at_r : r = q
    · rw [← at_r, gone]
      rcases lets with rfl | rfl <;> simp [refAfter]
    · rw [refAfter_singleton]
      · rcases lets with rfl | rfl <;> simp [at_r]
      · rcases lets with rfl | rfl <;> simp [at_r]

theorem release (P r : Nat) : Outcome P [.release r] s (s.releaseRef P r) := by
  unfold releaseRef
  cases here : s.ref? r with
  | none => exact of_gone (Or.inl rfl) here
  | some a =>
    have outcome := of_setRef (Or.inl rfl) here (s.endsOn_disarm P a)
    rw [show refAfter [.release r] r (some a) = some a.emptied by simp [refAfter]] at outcome
    exact outcome

theorem dropRef (allPinned : s.AllPinnedIn P) (r : Nat) :
    Outcome P [.dropRef r] s (s.dropRef r) := by
  unfold Session.dropRef
  cases here : s.ref? r with
  | none => exact of_gone (Or.inr rfl) here
  | some a =>
    have ends : EndsOn P [a] s (s.discardAll [a]) :=
      s.endsOn_discardAll fun a' listed b binding => by
      cases List.mem_singleton.mp listed
      exact allPinned (.ref r) a b here binding
    have outcome := of_setRef (Or.inr rfl) here ends
    rw [show refAfter [.dropRef r] r (some a) = none by simp [refAfter]] at outcome
    exact outcome

theorem dropMap (allPinned : s.AllPinnedIn P) (m : Nat) :
    Outcome P [.dropMap m] s (s.dropMap m) := by
  have refs (r : Nat) := (refAfter_singleton (d := .dropMap m) (r := r) nofun nofun (s.ref? r)).symm
  unfold Session.dropMap
  cases here : s.map? m with
  | none =>
    refine of_ends (.nil P s) (fun c => ?_) nofun rfl rfl refs fun n => ?_
    · rw [letsGo_map, here]
      simp
    · change s.map? n = _
      by_cases at_m : m = n
      · subst at_m
        simp [mapAfter, here]
      · rw [mapAfter_singleton (by simp [at_m]) rfl]
  | some map =>
    have ends : EndsOn P map.references s (s.discardAll map.references) :=
      s.endsOn_discardAll fun a listed b binding => by
        obtain ⟨key, at_key⟩ := (map.mem_references a).mp listed
        exact allPinned (.entry m key) a b (Option.bind_eq_some_iff.mpr ⟨map, here, at_key⟩) binding
    refine of_ends ends (fun c => ?_) nofun (congrArg Array.size ends.same.refs) ?_
      (fun r => (ends.same.ref? r).trans (refs r)) fun n => ?_
    · rw [letsGo_map, here]
      simp
    · rw [Array.size_setIfInBounds, ends.same.maps]
    · change ((s.discardAll map.references).setMap m none).map? n = _
      rw [map?_setMap, ends.same.map?, ends.same.maps]
      by_cases at_m : m = n
      · subst at_m
        rw [if_pos ⟨rfl, s.lt_size_of_map? here⟩]
        simp [mapAfter]
      · rw [if_neg fun both => at_m both.1, mapAfter_singleton (by simp [at_m]) rfl]

end LettingGo

end Errands

section Delivery

theorem fst_onRef {s u : Session} {r : Nat} {f : WeakReference → Session × ActionReply}
    (done : ∀ ref, (f ref).1 = u) (gone : s.ref? r = none → u = s) :
    (s.onRef .idle r f).1 = u := by
  unfold onRef
  rw [if_neg nofun]
  cases here : s.ref? r with
  | none => exact (gone here).symm
  | some ref => exact done ref

theorem fst_onMap {s u : Session} {m : Nat} {f : WeakValueMap → Session × ActionReply}
    (done : ∀ map, (f map).1 = u) (gone : s.map? m = none → u = s) :
    (s.onMap .idle m f).1 = u := by
  unfold onMap
  rw [if_neg nofun]
  cases here : s.map? m with
  | none => exact (gone here).symm
  | some map => exact done map

theorem act (allPinned : s.AllPinnedIn P) (a : Action) :
    Outcome P a.errand?.toList s (s.act .idle P a).1 := by
  cases a with
  | pin handle => exact (refl P s).modifyPins _
  | unpin handle => exact (refl P s).modifyPins _
  | isAlive x => exact refl P s
  | pinCount pins => exact refl P s
  | isBound r => exact onRef_induction (refl P s) fun _ _ => refl P s
  | mapSize m => exact onMap_induction (refl P s) fun _ _ => refl P s
  | release r =>
    have done : (s.act .idle P (.release r)).1 = s.releaseRef P r :=
      fst_onRef (fun _ => rfl) fun gone => by rw [releaseRef, gone]
    rw [done]
    exact release P r
  | dropRef r =>
    have done : (s.act .idle P (.dropRef r)).1 = s.dropRef r :=
      fst_onRef (fun _ => rfl) fun gone => by rw [Session.dropRef, gone]
    rw [done]
    exact dropRef allPinned r
  | dropMap m =>
    have done : (s.act .idle P (.dropMap m)).1 = s.dropMap m :=
      fst_onMap (fun _ => rfl) fun gone => by rw [Session.dropMap, gone]
    rw [done]
    exact dropMap allPinned m

theorem actAll (allPinned : s.AllPinnedIn P) (actions : List Action) :
    Outcome P (actions.filterMap Action.errand?) s (s.actAll .idle P actions).1 := by
  induction actions generalizing s with
  | nil => exact refl P s
  | cons a rest ih =>
    have first := act allPinned a
    have both := first.trans (ih (first.allPinned allPinned))
    have errands : (a :: rest).filterMap Action.errand? =
        a.errand?.toList ++ rest.filterMap Action.errand? := by
      cases errand : a.errand? <;> simp [errand]
    rw [errands]
    exact both

theorem deliver (allPinned : s.AllPinnedIn P) (f : Finalizer) :
    Outcome P f.errands s (s.deliver .idle P f) := by
  cases f with
  | endBinding c handle => exact { fire (s.logRun (.endBinding c handle)) P c handle with }
  | report m key handle => exact { report (s.logRun (.report m key handle)) P m key handle with }
  | user label actions =>
    exact { actAll (s := s.logRun (.user label actions)) allPinned actions with }

/-- What a batch comes to is told by the errands of its finalizers. -/
theorem deliverAll (allPinned : s.AllPinnedIn P) (due : List Finalizer) :
    Outcome P (due.flatMap Finalizer.errands) s (s.deliverAll .idle P due) := by
  induction due generalizing s with
  | nil => exact refl P s
  | cons f rest ih =>
    have first := deliver allPinned f
    exact first.trans (ih (first.allPinned allPinned))

end Delivery

section Order
variable {errands' : List Errand} {t' : Session}

theorem refAfter_perm (perm : errands'.Perm errands) (r : Nat) (ref : Option WeakReference) :
    refAfter errands' r ref = refAfter errands r ref := by
  simp only [refAfter, perm.mem_iff]

theorem mapAfter_perm (perm : errands'.Perm errands) (m : Nat) (map : Option WeakValueMap) :
    Option.Rel WeakValueMap.SameButOrder (mapAfter errands m map) (mapAfter errands' m map) := by
  unfold mapAfter
  simp only [perm.mem_iff]
  split
  · exact .none
  · cases map with
    | none => exact .none
    | some map => exact .some ⟨rfl, (perm.filterMap _).append_left _⟩

theorem letsGo_perm (perm : errands'.Perm errands) (c : Nat) :
    s.LetsGo errands' c ↔ s.LetsGo errands c := by
  have same (p : Place) : LetGo errands' p ↔ LetGo errands p := by
    cases p <;> simp only [LetGo, perm.mem_iff]
  simp only [LetsGo, same]

theorem cells_ext (made : t'.cells.size = t.cells.size) (same : ∀ c, t'.cell c = t.cell c) :
    t'.cells = t.cells := by
  refine Array.ext made fun c inside inside' => ?_
  have at_c := same c
  unfold cell at at_c
  simpa [Array.getD_eq_getD_getElem?, inside, inside'] using at_c

theorem refs_ext (made : t'.refs.size = t.refs.size) (same : ∀ r, t'.ref? r = t.ref? r) :
    t'.refs = t.refs := by
  refine Array.ext made fun r inside inside' => ?_
  have at_r := same r
  unfold ref? at at_r
  simpa [inside, inside'] using at_r

/-- The order of errands shows in the dead lists only, once the pins are gone. -/
theorem alike (outcome : Outcome P errands s t) (outcome' : Outcome P errands' s t')
    (perm : errands'.Perm errands) : Alike (t.clearPins P) (t'.clearPins P) where
  alive := outcome'.alive.trans outcome.alive.symm
  runtimes := outcome'.runtimes.trans outcome.runtimes.symm
  handles := outcome'.handles.trans outcome.handles.symm
  pinSets := by
    have made := outcome'.pins_made.trans outcome.pins_made.symm
    unfold clearPins Session.modifyPins
    apply Array.ext_getElem?
    intro q
    rw [Array.getElem?_modify, Array.getElem?_modify]
    by_cases cleared : P = q
    · rw [if_pos cleared, if_pos cleared]
      by_cases inside : q < t.pinSets.size
      · simp [inside, made]
      · simp [inside, made]
    · rw [if_neg cleared, if_neg cleared, outcome'.pinned q (Ne.symm cleared),
        outcome.pinned q (Ne.symm cleared)]
  cells := by
    refine cells_ext (outcome'.cells_made.trans outcome.cells_made.symm) fun c => ?_
    change t'.cell c = t.cell c
    by_cases gone : s.LetsGo errands c
    · rw [outcome.superseded c gone, outcome'.superseded c ((letsGo_perm perm c).mpr gone)]
    · rw [outcome.spared c gone, outcome'.spared c (mt (letsGo_perm perm c).mp gone)]
      simp only [cellAfter, perm.mem_iff]
  collectors := outcome'.collectors.trans outcome.collectors.symm
  refs := by
    refine refs_ext (outcome'.refs_made.trans outcome.refs_made.symm) fun r => ?_
    change t'.ref? r = t.ref? r
    rw [outcome.refs, outcome'.refs, refAfter_perm perm]
  made := outcome'.maps_made.trans outcome.maps_made.symm
  maps m := by
    change Option.Rel _ (t.map? m) (t'.map? m)
    rw [outcome.maps, outcome'.maps]
    exact mapAfter_perm perm m _

end Order

end Outcome

end WeakRefs
