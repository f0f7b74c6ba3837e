import WeakRefs.Proofs.Binding
import WeakRefs.Proofs.EntriesOfGoneHeaps

/-!
# Who is reported is not bound

An honest collector may refuse finalizers, but keeps those that it accepts, as the heap does. Then
no entry of any map is both bound and on the dead list.
-/

namespace WeakRefs

/-- Whether a definition does as the heap does, or fails. -/
def Directive.isHonest : Directive → Bool
  | pass | fail _ => true
  | _ => false

/-- Whether an operation makes collectors do worse than to refuse finalizers. -/
def Op.isHonest : Op → Bool
  | script _ directives => directives.all Directive.isHonest
  | _ => true

namespace Session

/-- Every collector does as its heap does, or refuses. -/
def Honest (s : Session) : Prop :=
  ∀ j c, s.collector? j = some c → ∀ d ∈ c.script, d.isHonest = true

namespace Honest
variable {s s' : Session}

theorem congr (honest : s.Honest) (same : s'.collectors = s.collectors) : s'.Honest := by
  intro j c there
  rw [collector?_congr same] at there
  exact honest j c there

/-- Collector `i` changes, and has no directive that it did not have. -/
theorem set (honest : s.Honest) {i : Nat} {c d : Collector} (here : s.collector? i = some c)
    (script : ∀ e ∈ d.script, e ∈ c.script)
    (same : s'.collectors = s.collectors.setIfInBounds i (some d)) : s'.Honest := by
  intro j e there directive listed
  have view : s'.collector? j = (s.setCollector i d).collector? j := collector?_congr same j
  rw [view, s.collector?_setCollector here] at there
  split at there
  · cases there
    exact honest i c here directive (script directive listed)
  · exact honest j e there directive listed

end Honest

end Session

theorem Collector.Receives.script {c c' : Collector} {r : ObjectRef} {f : Finalizer} {ran : Bool}
    {a : Affiliation} (received : c.Receives r f c' ran a) : c'.script = c.script.tail := by
  cases received <;> rfl

namespace Move
variable {t : Tag} {m m' : Moment}

theorem honest (move : Move t m m') (unscripted : ∀ j, t ≠ .script j)
    (honest : m.session.Honest) : m'.session.Honest := by
  obtain ⟨s, hand, running, flight⟩ := m
  cases move with
  | tornDown _ x =>
    refine honest.congr ?_
    unfold Session.recordTornDown
    split <;> rfl
  | newHeap _ config =>
    intro j c there directive listed
    have there : (s.newHeap config).1.collector? j = some c := there
    rw [s.collector?_newHeap] at there
    split at there
    · cases there
      cases listed
    · exact honest j c there directive listed
  | @script _ i c c' here heap stash => exact absurd rfl (unscripted i)
  | advance _ here => exact honest.set here (fun _ => List.mem_of_mem_tail) rfl
  | @alloc _ i c kind heap r here _ allocated =>
    exact honest.set (d := { c with heap }) here (fun _ => id) rfl
  | @upkeep _ i c heap here upkeep =>
    exact honest.set (d := { c with heap }) here (fun _ => id) rfl
  | @reclaim _ i c outcome here idle calm reclamation =>
    refine honest.set (d := { c with heap := outcome.1 }) here (fun _ => id) ?_
    dsimp only
    rw [Session.emitAll_eq]
    rfl
  | receive _ here idle calm proper received =>
    refine honest.set here (fun d listed => ?_) rfl
    rw [received.script] at listed
    exact List.mem_of_mem_tail listed
  | @unstash _ i c position f here idle calm stashed =>
    exact honest.set (d := { c with stash := c.stash.eraseIdx position }) here (fun _ => id) rfl
  | @drain _ i c groups here idle calm all =>
    exact honest.set (d := { c with heap := c.heap.emptied }) here (fun _ => id) rfl
  | @close _ i c here calm =>
    intro j d there directive listed
    have there : (s.collectors.setIfInBounds i none)[j]?.join = some d := there
    rw [Array.getElem?_setIfInBounds] at there
    split at there
    · split at there <;> cases there
    · exact honest j d there directive listed
  | fire _ here idle flies =>
    exact honest.congr ((s.logRun _).sameButBindings_endBinding _ _ _).collectors
  | disarm _ here held => exact honest.congr (s.collectors_disarm _ _)
  | discard _ held => exact honest.congr (s.collectors_discard _)
  | clear _ here held binding bound dead =>
    exact honest.congr (s.sameButBindings_clearDead _ _ _).collectors
  | prune _ here => exact honest.congr (s.collectors_discardAll _)
  | dropMap _ here => exact honest.congr (s.collectors_discardAll _)
  | @attach _ i c c' p ref target ran a here held loose unbound calm received =>
    refine honest.set (d := c') here (fun d listed => ?_) (Moment.put_same _ _ _).collectors
    rw [received.script] at listed
    exact List.mem_of_mem_tail listed
  | _ => exact honest.congr rfl

/-- A collector goes by being closed, and nothing else goes with it. -/
theorem closed (move : Move t m m') {i : Nat} {c : Collector}
    (here : m.session.collector? i = some c) (gone : m'.session.collector? i = none) :
    m'.flight = m.flight ∧ ∀ j, m'.session.collector? j =
      if j = i then none else m.session.collector? j := by
  by_cases shuts : t = .shutDown i
  · subst shuts
    obtain ⟨s, hand, running, flight⟩ := m
    cases move with
    | @drain _ _ d groups at_i idle calm all =>
      have there := s.collector?_setCollector at_i { d with heap := d.heap.emptied } i
      rw [if_pos rfl] at there
      exact nomatch gone.symm.trans there
    | close _ at_i calm =>
      refine ⟨rfl, fun j => ?_⟩
      change (s.collectors.setIfInBounds i none)[j]?.join = _
      rw [Array.getElem?_setIfInBounds]
      by_cases same : i = j
      · rw [if_pos same, if_pos same.symm]
        split <;> rfl
      · rw [if_neg same, if_neg fun e => same e.symm]
        rfl
  · obtain ⟨d, there, _⟩ := move.evolves.stays shuts here
    rw [gone] at there
    cases there

/-- With its heap a finalizer that it keeps is gone for good. -/
theorem silent (move : Move t m m') {i : Nat} {f : Finalizer} {kind : ObjectKind} {v : ObjectRef}
    (inHeap : KeptInHeap i f kind v m) (gone : m'.session.collector? i = none) : ¬ m'.Awaits f := by
  obtain ⟨c, here, _⟩ := inHeap.keptBy
  obtain ⟨flight, view⟩ := move.closed here gone
  rintro (⟨j, d, there, kept⟩ | flies)
  · rw [view] at there
    split at there
    · cases there
    · rename_i other
      rcases kept with stashed | ⟨q, pending⟩
      · exact inHeap.stash j d there stashed
      · exact inHeap.alone j d there other q pending
  · rw [flight] at flies
    exact inHeap.rests flies

end Move

def Unreported (x : Nat) (key : String) (r : WeakReference) (m : Moment) : Prop :=
  ∀ map, m.session.map? x = some map → (key, r.id) ∉ map.dead

/-- An entry ends, both of its finalizers are kept on one value, or it will not be reported. -/
inductive ReportSafe (x : Nat) (key : String) (r : WeakReference) (m : Moment) : Prop where
  | ends : BindingEnds r m → ReportSafe x key r m
  | keptOnce {i : Nat} {b : Binding} {kind : ObjectKind} {v : ObjectRef} : r.binding = some b →
    KeptInHeap i (.endBinding b.cell r.id) kind v m → KeptInHeap i (.report x key r.id) kind v m →
    Unreported x key r m → ReportSafe x key r m
  | silent : ¬ m.Awaits (.report x key r.id) → Unreported x key r m → ReportSafe x key r m

def KeyReportSafe (x : Nat) (key : String) (m : Moment) : Prop :=
  ∀ r, m.session.entry? x key = some r → ReportSafe x key r m

section Moves
variable {x : Nat} {key : String} {r : WeakReference} {m m' : Moment} {t : Tag}

theorem Unreported.move (unreported : Unreported x key r m) (move : Move t m m')
    (rests : .report x key r.id ∉ m.flight) : Unreported x key r m' := by
  intro map' there listed
  rcases move.dead_before there listed with ⟨map, here, before⟩ | flies
  · exact unreported map here before
  · exact rests flies

theorem ReportSafe.move (reportSafe : ReportSafe x key r m) (ownership : Ownership m)
    (move : Move t m m')
    (here : m.session.entry? x key = some r) (old : ¬ t.defines (.report x key r.id)) :
    ReportSafe x key r m' := by
  have held : m.held (.entry x key) = some r := here
  cases reportSafe with
  | ends ends => exact .ends (ends.move ownership move held)
  | @keptOnce i b kind v binding ends reports unreported =>
    have not_new (h : HandleId) :
        Finalizer.endBinding b.cell r.id ≠ .endBinding m.session.cells.size h := by
      intro same
      have mine := WeakReference.cell?_of_binding binding
      exact absurd (Finalizer.endBinding.inj same).1
        (Nat.ne_of_lt (ownership.inside _ r b.cell held mine))
    have ended := move.inHeap ownership.heaps ends (move.calm _ _) not_new
    have reported := move.inHeap ownership.heaps reports old fun h same => nomatch same
    have later := unreported.move move reports.rests
    rcases ended with ends' | ⟨flies, _⟩ | gone
    · rcases reported with reports' | ⟨_, dead⟩ | gone
      · exact .keptOnce binding ends' reports' later
      · have live := ends'.isLiveIn
        rw [Session.isLiveIn_eq_false_iff.mpr dead] at live
        cases live
      · obtain ⟨c, there, _⟩ := ends'.keptBy
        rw [gone] at there
        cases there
    · exact .ends (Or.inr ⟨b, binding, flies⟩)
    · exact .silent (move.silent reports gone) later
  | silent quiet unreported =>
    refine .silent (fun waits => ?_) (unreported.move move fun flies => quiet (Or.inr flies))
    rcases move.awaits ownership.heaps waits with waited | fresh | ⟨c, h, same⟩
    · exact quiet waited
    · exact old fresh
    · cases same

theorem KeyReportSafe.run {T : Tag → Prop} (keyReportSafe : KeyReportSafe x key m)
    (ownership : Ownership m) (moves : Moves T m m') (calm : ∀ t, T t → t ≠ .arrive (.entry x key) ∧
      ∀ r, m.session.entry? x key = some r → ¬ t.defines (.report x key r.id)) :
    KeyReportSafe x key m' := by
  have both : KeyReportSafe x key m' ∧
      ∀ r, m'.session.entry? x key = some r → m.session.entry? x key = some r := by
    refine moves.keeps ownership (I := fun n => KeyReportSafe x key n ∧
      ∀ r, n.session.entry? x key = some r → m.session.entry? x key = some r) ?_
      ⟨keyReportSafe, fun _ here => here⟩
    intro t n n' allowed ownership move both
    obtain ⟨keyReportSafe, before⟩ := both
    obtain ⟨other, old⟩ := calm t allowed
    refine ⟨fun r there => ?_, fun r there => before r (move.entry_before there other)⟩
    have here := move.entry_before there other
    exact (keyReportSafe r here).move ownership move here (old r (before r here))
  exact both.1

end Moves

section Insert
variable {s : Session} {j x : Nat} {key : String} {v : ObjectRef} {c : Collector}

namespace Session

theorem define_honest (here : s.collector? j = some c)
    (honest : ∀ d ∈ c.script, d.isHonest = true) (focus : Focus) {f : Finalizer} {a : Affiliation}
    (done : (s.define focus j v f).2 = .ok a) : c.nextDirective = .pass := by
  have listed : ∀ d, c.nextDirective = d → d ≠ .pass → d.isHonest = true := by
    intro d next other
    unfold Collector.nextDirective at next
    cases script : c.script with
    | nil =>
      rw [script] at next
      exact absurd next.symm other
    | cons first rest =>
      rw [script] at next
      exact next ▸ honest first (script ▸ List.mem_cons_self)
  unfold define at done
  rw [here] at done
  dsimp only at done
  cases next : c.nextDirective with
  | pass => rfl
  | fail e =>
    rw [next] at done
    cases done
  | now a => exact nomatch listed _ next nofun
  | stash a => exact nomatch listed _ next nofun
  | lose a => exact nomatch listed _ next nofun

theorem bind_honest (here : s.collector? j = some c)
    (honest : ∀ d ∈ c.script, d.isHonest = true) (focus : Focus) {ref : WeakReference}
    {a : Affiliation} (done : (s.bind focus j ref v).2.2 = .ok a) : c.nextDirective = .pass := by
  have here' : s.newCell.1.collector? j = some c := here
  unfold bind at done
  rw [here] at done
  dsimp only at done
  cases defined : (s.newCell.1.define focus j v (.endBinding s.newCell.2 ref.id)).2 with
  | error e =>
    rw [defined] at done
    cases done
  | ok a' => exact define_honest here' honest focus defined

theorem cells_define_report (focus : Focus) (handle : HandleId) :
    (s.define focus j v (.report x key handle)).1.cells = s.cells := by
  cases here : s.collector? j with
  | none =>
    unfold define
    rw [here]
  | some c =>
    rcases s.define_cases here focus v (.report x key handle) with
      ⟨e, refused⟩ | ⟨c', ran, a, t, received, done, after⟩
    · rw [refused]
      rfl
    · rw [done]
      cases ran with
      | false =>
        have after : t = _ := after
        rw [after]
        rfl
      | true =>
        rcases after with after | counted
        · rw [after]
          rfl
        · rw [counted]
          rfl

end Session

theorem notInReports_bindNew {r : WeakReference} (ownership : Ownership ⟨s, none, [], []⟩)
    (issued : Issued ⟨s, none, [], []⟩) (focus : Focus) (made : (s.bindNew focus j v).2 = .ok r) :
    Ownership ⟨(s.bindNew focus j v).1, some r, [], []⟩ ∧
      NotInReports r.id ⟨(s.bindNew focus j v).1, some r, [], []⟩ := by
  have notIn : NotInReports s.freshHandle.2 ⟨s, none, [], []⟩ := .of_issued issued
  rw [← s.id_of_bindNew focus made] at notIn
  have moves := (Session.bindNew_strides (T := fun t => ∀ y k, ¬ t.defines (.report y k r.id))
    (s := s) (i := j) (fun _ _ => id) focus (fun _ _ => id) (fun _ _ => id) v (fun _ _ => id)).moves
  rw [made] at moves
  refine moves.preserves (I := fun n => Ownership n ∧ NotInReports r.id n) ?_ ⟨ownership, notIn⟩
  intro t n n' calm move both
  exact ⟨both.1.move move, both.2.move both.1.heaps move calm⟩

/-- A reference in hand whose finalizer is kept comes to its place with its report beside it. -/
theorem ReportSafe.of_kept {r : WeakReference} {b : Binding} {kind : ObjectKind}
    {heap : Heap Finalizer} {a : Affiliation} {map : WeakValueMap}
    (notIn : NotInReports r.id ⟨s, some r, [], []⟩) (here : s.collector? j = some c)
    (present : s.map? x = some map) (binding : r.binding = some b)
    (inHeap : KeptInHeap j (.endBinding b.cell r.id) kind v ⟨s, some r, [], []⟩)
    (kept : c.heap.define v (.report x key r.id) = .kept heap a) (roots : Nat) :
    ReportSafe x key r ⟨(s.setCollector j { c.advance with heap }).placeEntry roots x key r, none,
      [],
      []⟩ := by
  have placed : ((s.setCollector j { c.advance with heap }).placeEntry roots x key r).collectors =
      (s.setCollector j { c.advance with heap }).collectors := Session.collectors_placeEntry roots
  have reports : KeptInHeap j (.report x key r.id) a.kind v
      ⟨s.setCollector j { c.advance with heap }, some r, [], []⟩ :=
    .of_kept here kept (notIn.awaits x key) rfl List.not_mem_nil
  have ends : KeptInHeap j (.endBinding b.cell r.id) kind v
      ⟨s.setCollector j { c.advance with heap }, some r, [], []⟩ := by
    have there := Session.collector?_setCollector_self here { c.advance with heap }
    have becomes : KeptInHeap.Becomes j (.endBinding b.cell r.id) kind v
        ⟨s.setCollector j { c.advance with heap }, some r, [], []⟩ :=
      inHeap.retains here (.receives (.kept kept) nofun) rfl List.not_mem_nil
    rcases becomes with ends | ⟨flies, _⟩ | gone
    · exact ends
    · cases flies
    · exact nomatch gone.symm.trans there
  -- Both sit on the same value, which has one kind.
  have same_kind : a.kind = kind := by
    obtain ⟨d, at_j, keptOnce⟩ := ends.keptBy
    obtain ⟨d', at_j', keptOnce'⟩ := reports.keptBy
    rw [at_j] at at_j'
    cases at_j'
    exact Option.some.inj (keptOnce'.live.symm.trans keptOnce.live)
  rw [same_kind] at reports
  refine .keptOnce binding (ends.same placed id) (reports.same placed id) fun map' there listed =>
    ?_
  have there : (Session.placeEntry _ roots x key r).map? x = some map' := there
  rw [Session.map?_placeEntry roots (s := s.setCollector j { c.advance with heap })
    present] at there
  cases there
  exact notIn.dead x map key present listed

theorem keptInHeap_bindNew {r : WeakReference} (ownership : Ownership ⟨s, none, [], []⟩)
    (here : s.collector? j = some c) (honest : ∀ d ∈ c.script, d.isHonest = true) (focus : Focus)
    (made : (s.bindNew focus j v).2 = .ok r) :
    ∃ b d, r.binding = some b ∧ (s.bindNew focus j v).1.collector? j = some d ∧
      d.script = c.script.tail ∧ ((s.bindNew focus j v).1.cell b.cell = .cleared ∨ ∃ a :
        Affiliation,
        KeptInHeap j (.endBinding b.cell r.id) a.kind v ⟨(s.bindNew focus j v).1, some r, [],
          []⟩) := by
  have here' : s.freshHandle.1.collector? j = some c := here
  have inside : ∀ b, ({ id := s.freshHandle.2 } : WeakReference).binding = some b →
      b.cell < s.freshHandle.1.cells.size := fun b none => nomatch none
  unfold Session.bindNew at made ⊢
  dsimp only at made ⊢
  cases bound : (s.freshHandle.1.bind focus j { id := s.freshHandle.2 } v).2.2 with
  | error e =>
    rw [bound] at made
    cases made
  | ok a =>
    have passes := Session.bind_honest here' honest focus bound
    cases live : c.heap.kind? v with
    | none =>
      have done := Session.bind_due here' passes focus inside (Heap.kind?_eq_none_iff.mp live)
      rw [done] at made ⊢
      cases made
      refine ⟨_, _, rfl, Session.collector?_setCollector_self here' _, rfl, Or.inl ?_⟩
      exact (Session.cell_arrive _ _).trans (if_pos rfl)
    | some kind =>
      by_cases takes : kind = .immediate
      · subst takes
        rw [Session.bind_immediate here' passes focus live] at bound
        cases bound
      · obtain ⟨heap, a', kept, _⟩ := Heap.define_live live takes
          (.endBinding s.freshHandle.1.cells.size s.freshHandle.2)
        have done := Session.bind_kept here' passes focus inside kept
        rw [done] at made ⊢
        cases made
        refine ⟨_, _, rfl, Session.collector?_setCollector_self here' _, rfl, Or.inr ⟨a', ?_⟩⟩
        have new : ¬ Moment.Awaits ⟨s.freshHandle.1, none, [], []⟩
            (.endBinding s.freshHandle.1.cells.size s.freshHandle.2) :=
          fun waits => absurd (ownership.waits _ _ waits).1 (Nat.lt_irrefl _)
        exact KeptInHeap.of_kept here' kept new rfl List.not_mem_nil

theorem KeyReportSafe.of_placed {r : WeakReference} {map : WeakValueMap} (roots : Nat)
    (present : s.map? x = some map)
    (reportSafe : ReportSafe x key r ⟨s.placeEntry roots x key r, none, [], []⟩) :
    KeyReportSafe x key ⟨s.placeEntry roots x key r, none, [], []⟩ := by
  intro r' there
  have placed : Session.entry? (s.placeEntry roots x key r) x key = some r :=
    Session.entry?_placeEntry roots present
  exact Option.some.inj (placed.symm.trans there) ▸ reportSafe

/-- An entry that comes by an honest collector is safe from its reports. -/
theorem KeyReportSafe.of_mapInsert (ownership : Ownership ⟨s, none, [], []⟩)
    (issued : Issued ⟨s, none, [], []⟩) (honest : s.Honest)
    (done : (s.mapInsert j x key v).2 = .ok ()) :
    KeyReportSafe x key ⟨(s.mapInsert j x key v).1, none, [], []⟩ := by
  cases here : s.collector? j with
  | none =>
    rw [Session.mapInsert_of_missing (Or.inl here)] at done
    cases done
  | some c =>
  cases present : s.map? x with
  | none =>
    rw [Session.mapInsert_of_missing (Or.inr present)] at done
    cases done
  | some map =>
  obtain ⟨r, a, made, defined, session⟩ := Session.mapInsert_cases here present done
  rw [session]
  have pruned := quiet_pruneMap s x
  replace issued := issued.run ownership pruned
  replace ownership : Ownership ⟨s.pruneMap x, none, [], []⟩ :=
    pruned.preserves (fun _ move ownership => ownership.move move) ownership
  have here' := (s.collector?_pruneMap x j).trans here
  have entries := Session.entries?_pruneMap present
  generalize s.pruneMap x = t at made defined ownership issued here' entries
  obtain ⟨map', present', _⟩ := Option.map_eq_some_iff.mp
    (((Session.stableView_entries? x).bindNew t j v).trans entries)
  obtain ⟨b, d, binding, at_j, script, ended | ⟨a', inHeap⟩⟩ :=
    keptInHeap_bindNew ownership here' (honest j c here) (.map x) made
  · obtain ⟨map'', present'', _⟩ := Option.map_eq_some_iff.mp
      (((Session.stableView_entries? x).define _ j v (.report x key r.id)).trans
        (((Session.stableView_entries? x).bindNew t j v).trans entries))
    refine .of_placed c.heap.pins present'' (.ends (Or.inl ?_))
    rw [Session.isBound_of_binding _ binding]
    change (Session.cell (Session.placeEntry _ c.heap.pins x key r) b.cell).isBound = false
    rw [Session.cell_placeEntry, Session.cell_congr (Session.cells_define_report _ _), ended]
    split <;> rfl
  · obtain ⟨_, notIn⟩ := notInReports_bindNew ownership issued (.map x) made
    have passes := Session.define_honest at_j (fun directive listed =>
      honest j c here directive (List.mem_of_mem_tail (script ▸ listed))) (.map x) defined
    have live : d.heap.kind? v = some a'.kind := by
      obtain ⟨e, at_j', keptOnce⟩ := inHeap.keptBy
      rw [at_j] at at_j'
      cases at_j'
      exact keptOnce.live
    obtain ⟨heap, a'', kept, _⟩ := Heap.define_live live (by cases a' <;> decide)
      (.report x key r.id)
    have result := Session.define_pass at_j passes (.map x) v (.report x key r.id)
    rw [kept] at result
    rw [result]
    exact .of_placed c.heap.pins (s := Session.setCollector _ j { d.advance with heap }) present'
      (.of_kept notIn at_j present' binding inHeap kept c.heap.pins)

end Insert

section Runs
variable {s : Session} {op : Op} {x : Nat} {key : String}

/-- Unless an operation inserts under a key, what stands there was there before, and is not reported
by a finalizer that comes now. -/
theorem Session.entry_moves (ownership : Ownership ⟨s, none, [], []⟩)
    (inserts : ∀ j v, op = .mapInsert j x key v → (s.mapInsert j x key v).2 ≠ .ok ()) :
    Moves (fun t => t ≠ .arrive (.entry x key) ∧
        ∀ r, s.entry? x key = some r → ¬ t.defines (.report x key r.id))
      ⟨s, none, [], []⟩ ⟨(s.perform op).1, none, [], []⟩ := by
  by_cases works : op.map? = some x
  · by_cases insertion : ∃ j k v, op = .mapInsert j x k v
    · obtain ⟨j, k, v, rfl⟩ := insertion
      rw [Session.perform_mapInsert]
      refine (Session.mapInsert_spares ownership ?_).weaken fun t spares =>
        ⟨spares.1.arrive, spares.1.defines⟩
      by_cases same : k = key
      · subst same
        exact Or.inr (inserts j v rfl)
      · exact Or.inl same
    · refine (Session.map_moves works fun j k v same => insertion ⟨j, k, v, same⟩).weaken
        fun t quiet => ?_
      rcases quiet with rfl | ⟨p, rfl⟩ | rfl
      · exact ⟨nofun, fun _ _ => id⟩
      · exact ⟨nofun, fun _ _ => id⟩
      · exact ⟨nofun, fun _ _ => id⟩
  · refine (Session.perform_moves_of_ownership ownership op).weaken fun t allowed => ?_
    have spares : t.Spares x key s := spares_of_allows works allowed
    exact ⟨spares.arrive, spares.defines⟩

theorem KeyReportSafe.perform (keyReportSafe : KeyReportSafe x key ⟨s, none, [], []⟩)
    (ownership : Ownership ⟨s, none, [], []⟩)
    (issued : Issued ⟨s, none, [], []⟩) (honest : s.Honest) :
    KeyReportSafe x key ⟨(s.perform op).1, none, [], []⟩ := by
  by_cases insertion : ∃ j v, op = .mapInsert j x key v ∧ (s.mapInsert j x key v).2 = .ok ()
  · obtain ⟨j, v, rfl, done⟩ := insertion
    rw [Session.perform_mapInsert]
    exact .of_mapInsert ownership issued honest done
  · exact keyReportSafe.run ownership (Session.entry_moves ownership fun j v same done =>
      insertion ⟨j, v, same, done⟩) fun _ => id

theorem Session.Honest.perform (honest : s.Honest) (ownership : Ownership ⟨s, none, [], []⟩)
    (fair : op.isHonest = true) : (s.perform op).1.Honest := by
  by_cases scripts : ∃ j, op.scripts j = true
  · obtain ⟨j, scripts⟩ := scripts
    have set {f : Collector → Collector} {i : Nat} (script : ∀ c, s.collector? i = some c →
        ∀ d ∈ (f c).script, d.isHonest = true) : (s.modifyCollector i f).Honest := by
      intro k c there directive listed
      rw [Session.collector?_modifyCollector] at there
      split at there
      · rename_i same
        subst same
        obtain ⟨d, here, same⟩ := Option.map_eq_some_iff.mp there
        subst same
        exact script d here directive listed
      · exact honest k c there directive listed
    cases op with
    | script i directives =>
      refine set fun c here directive listed => ?_
      rcases List.mem_append.mp listed with old | new
      · exact honest i c here directive old
      · exact List.all_eq_true.mp fair directive new
    | reach i obj answer =>
      refine set fun c here directive listed => honest i c here directive ?_
      cases answer <;> exact listed
    | _ => cases scripts
  · refine (Session.perform_moves_of_ownership ownership op).preserves
      (I := fun m => m.session.Honest) (fun allowed move honest => move.honest ?_ honest) honest
    intro j same
    rw [same] at allowed
    cases allowed with
    | script its => exact scripts ⟨j, its⟩

/-- Where collectors only refuse, every entry is safe from its reports. -/
theorem KeyReportSafe.after {ops : List Op} (keyReportSafe : KeyReportSafe x key ⟨s, none, [], []⟩)
    (ownership : Ownership ⟨s, none, [], []⟩) (issued : Issued ⟨s, none, [], []⟩)
    (honest : s.Honest)
    (fair : ∀ op ∈ ops, op.isHonest = true) : KeyReportSafe x key ⟨s.after ops, none, [], []⟩ := by
  induction ops generalizing s with
  | nil => exact keyReportSafe
  | cons op rest ih =>
    have moves := Session.perform_moves_of_ownership ownership op
    exact ih (keyReportSafe.perform ownership issued honest)
      (Session.ownership_perform ownership op)
      (issued.run ownership moves) (honest.perform ownership (fair op List.mem_cons_self))
      fun op later => fair op (List.mem_cons_of_mem _ later)

/-- Where collectors only refuse, no entry that is bound has been reported. -/
theorem unreported_of_bound {ops : List Op} (fair : ∀ op ∈ ops, op.isHonest = true)
    {map : WeakValueMap} (present : (Session.after {} ops).map? x = some map) {r : WeakReference}
    (stands : map.entries.get? key = some r) (bound : (Session.after {} ops).isBound r = true) :
    (key, r.id) ∉ map.dead := by
  have vacant : KeyReportSafe x key ⟨{}, none, [], []⟩ := by
    intro r there
    simp [Session.entry?, Session.map?] at there
  have none_there : Session.Honest {} := by
    intro j c there
    simp [Session.collector?] at there
  have keyReportSafe := vacant.after ownership_empty .empty none_there fair
  cases keyReportSafe r (Session.entry?_eq_some_iff _ |>.mpr ⟨map, present, stands⟩) with
  | ends ends =>
    rcases ends with unbound | ⟨_, _, flies⟩
    · exact absurd bound (Bool.eq_false_iff.mp unbound)
    · cases flies
  | keptOnce _ _ _ unreported => exact unreported map present
  | silent _ unreported => exact unreported map present

end Runs

end WeakRefs
