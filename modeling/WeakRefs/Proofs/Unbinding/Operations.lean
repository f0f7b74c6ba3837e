import WeakRefs.Proofs.MapChanges
import WeakRefs.Proofs.HeapSteps
import WeakRefs.Proofs.Unbinding

/-!
# Operations that only end bindings

Each function of a session that works on heap `i` and binds nothing only ends bindings, as long as
the references used, also those that finalizers release, are used through the heap of their binding.
-/

namespace WeakRefs

namespace Heap
variable {φ : Type} {h : Heap φ}

theorem mem_pendingOf_reclaimAll (h : Heap φ) (dead : List Nat) (f : φ) :
    (∀ q, f ∈ (h.reclaimAll dead).1.pendingOf q → f ∈ h.pendingOf q) ∧
      (f ∈ (h.reclaimAll dead).2.flatMap Reclaimed.due → ∃ q, f ∈ h.pendingOf q) := by
  induction dead generalizing h with
  | nil => exact ⟨fun _ => id, nofun⟩
  | cons index rest ih =>
    have before {q : ObjectRef} (pending : f ∈ (h.reclaim index).1.pendingOf q) :
        f ∈ h.pendingOf q := by
      rw [pendingOf_reclaim] at pending
      split at pending
      · cases pending
      · exact pending
    obtain ⟨left, due⟩ := ih (h.reclaim index).1
    refine ⟨fun q pending => before (left q pending), fun listed => ?_⟩
    rcases List.mem_append.mp listed with own | later
    · exact ⟨h.refAt index, own⟩
    · obtain ⟨q, pending⟩ := due later
      exact ⟨q, before pending⟩

/-- A reclamation leaves no finalizer that was not there, and hands back none. -/
theorem mem_pendingOf_reclamation {outcome : Heap φ × List (Reclaimed φ)}
    (reclamation : h.Reclamation outcome) {f : φ} :
    (∀ q, f ∈ outcome.1.pendingOf q → f ∈ h.pendingOf q) ∧
      (f ∈ outcome.2.flatMap Reclaimed.due → ∃ q, f ∈ h.pendingOf q) := by
  cases reclamation with
  | sweep => exact h.mem_pendingOf_reclaimAll _ f
  | release r =>
    unfold release
    split
    · exact ⟨fun _ => id, nofun⟩
    · rename_i o live
      have same := pendingOf_setObject live { o with roots := o.roots - 1 } rfl
      dsimp only
      split
      · obtain ⟨left, due⟩ :=
          (h.setObject r { o with roots := o.roots - 1 }).mem_pendingOf_reclaimAll [r.index] f
        simp only [same] at left due
        exact ⟨left, due⟩
      · refine ⟨fun q pending => ?_, nofun⟩
        rw [← same]
        exact pending

end Heap

namespace Session
variable {owner : Nat → HandleId × Nat} {s s' : Session} {i : Nat} {c : Collector}
variable {a : WeakReference}

theorem pinned_clearPins (s : Session) (P : Nat) : (s.clearPins P).pinned P = ∅ := by
  rw [clearPins, pinned_modifyPins]
  split
  · rfl
  · rename_i outside
    unfold Session.pinned
    rw [Array.getD_eq_getD_getElem?, Array.getElem?_eq_none (by simpa using outside)]
    rfl

theorem not_mem_pinned_clearPins (s : Session) (P : Nat) (h : HandleId) :
    ¬ h ∈ (s.clearPins P).pinned P := by
  rw [pinned_clearPins]
  exact Roster.not_mem_empty h

theorem collector?_recordTornDown (s : Session) (x : InstanceId) (i : Nat) :
    (s.recordTornDown x).collector? i = s.collector? i := by
  unfold recordTornDown
  split <;> rfl

/-- The finalizers that a reclamation makes due release references through their own heaps. -/
def SettlesOnOwn (s : Session) (focus : Focus) (i : Nat)
    (outcome : Heap Finalizer × List (Reclaimed Finalizer)) : Prop :=
  ((s.modifyHeap i fun _ => outcome.1).emitAll (reclaimedEvents outcome.2)).DeliversOnOwn focus
    outcome.1.pins (outcome.2.flatMap Reclaimed.due)

def CollectsOnOwn (s : Session) (focus : Focus) (i : Nat) : Prop :=
  ∀ c, s.collector? i = some c → s.SettlesOnOwn focus i c.heap.sweep

def ReleasesRootOnOwn (s : Session) (i : Nat) (r : ObjectRef) : Prop :=
  ∀ c, s.collector? i = some c → s.SettlesOnOwn .idle i (c.heap.release r)

def FiresOnOwn (s : Session) (i position : Nat) : Prop :=
  ∀ c f, s.collector? i = some c → c.stash[position]? = some f →
    (s.modifyCollector i fun c => { c with stash := c.stash.eraseIdx position }).RunsOnOwn .idle
      c.heap.pins f

/-- A shutdown that fires finalizers delivers them in the heap's last state. -/
def ShutsDownOnOwn (s : Session) (i : Nat) : Prop :=
  ∀ c, s.collector? i = some c → c.heap.config.teardown = .fire →
    ((s.recordTornDown c.heap.runtime).modifyHeap i Heap.emptied).DeliversOnOwn .idle c.heap.pins
      (c.heap.pendingDirect ++ c.heap.pendingIndirect.flatMap Prod.snd)

def RefreshesOnOwn (s : Session) (focus : Focus) (i : Nat) (a : WeakReference) : Prop :=
  a.isIndirect = true → s.CollectsOnOwn focus i

/-- To look for the target brings the binding up to date while its runtime is alive. -/
def LooksOnOwn (s : Session) (focus : Focus) (i : Nat) (a : WeakReference) : Prop :=
  ∀ x, a.runtime? = some x → s.isAlive x = true → s.RefreshesOnOwn focus i a

/-- A finalizer that runs as soon as it is defined releases references through their own heaps. -/
def DefinesOnOwn (s : Session) (focus : Focus) (i : Nat) (r : ObjectRef) (f : Finalizer) : Prop :=
  ∀ c, s.collector? i = some c → (s.define focus i r f).1.runs = s.runs.push f →
    (s.modifyCollector i Collector.advance).RunsOnOwn focus c.heap.pins f

namespace Unbinds

theorem recordTornDown (x : InstanceId) : Unbinds owner s (s.recordTornDown x) := by
  unfold Session.recordTornDown
  split
  · exact quiet rfl rfl rfl rfl rfl
  · exact refl owner s

theorem upkeep (i : Nat) {f : Heap Finalizer → Heap Finalizer}
    (upkeep : ∀ h : Heap Finalizer, h.Upkeep (f h)) :
    Unbinds owner s (s.modifyHeap i f) := by
  cases here : s.collector? i with
  | none =>
    unfold modifyHeap
    rw [modifyCollector_of_gone here]
    exact refl owner s
  | some c =>
    rw [modifyHeap_eq here]
    refine setCollector here ((Heap.same_upkeep (upkeep c.heap)).1) fun g keeps => Or.inl ?_
    unfold Collector.Keeps at *
    simp only [Heap.pendingOf_upkeep (upkeep c.heap)] at keeps
    exact keeps

theorem emptied (here : s.collector? i = some c) :
    Unbinds owner s (s.setCollector i { c with heap := c.heap.emptied }) := by
  refine setCollector here rfl fun f keeps => Or.inl ?_
  rcases keeps with stashed | ⟨q, pending⟩
  · exact Or.inl stashed
  · rw [Heap.pendingOf_emptied] at pending
    cases pending

section Heaps
variable (pinsOwned : PinsOwned owner s)
include pinsOwned

theorem settle (here : s.collector? i = some c) (focus : Focus)
    {outcome : Heap Finalizer × List (Reclaimed Finalizer)}
    (reclamation : c.heap.Reclamation outcome) (own : s.SettlesOnOwn focus i outcome) :
    Unbinds owner s (s.settle focus i outcome) := by
  have pins := (Heap.same_reclamation reclamation).1
  have left : Unbinds owner s (s.setCollector i { c with heap := outcome.1 }) := by
    refine setCollector here pins fun f keeps => Or.inl ?_
    rcases keeps with stashed | ⟨q, pending⟩
    · exact Or.inl stashed
    · exact Or.inr ⟨q, (Heap.mem_pendingOf_reclamation reclamation).1 q pending⟩
  have told := left.trans (emitAll _ (outcome.2.map fun r => .reclaimed r.index r.due.length))
  have fits : ∀ f ∈ outcome.2.flatMap Reclaimed.due, f.Fits owner s.cells.size outcome.1.pins := by
    intro f due
    rw [pins]
    obtain ⟨q, pending⟩ := (Heap.mem_pendingOf_reclamation reclamation).2 due
    exact pinsOwned.fits i c f here (Or.inr ⟨q, pending⟩)
  rw [← told.size] at fits
  unfold SettlesOnOwn at own
  unfold Session.settle deliverDue
  rw [modifyHeap_eq here] at own ⊢
  exact (told.trans (deliverAll (pinsOwned.unbinds told) focus fits own)).trans
    (upkeep i fun _ => .countRun _)

theorem collect {focus : Focus} {i : Nat} (own : s.CollectsOnOwn focus i) :
    Unbinds owner s (s.collect focus i).1 := by
  unfold Session.collect
  split
  · exact refl owner s
  · rename_i c here
    exact ((settle pinsOwned here focus .sweep (own c here)).trans
      (upkeep i fun _ => .countCollection)).trans (emit _ _)

theorem releaseRoot {i : Nat} {r : ObjectRef} (own : s.ReleasesRootOnOwn i r) :
    Unbinds owner s (s.releaseRoot i r) := by
  unfold Session.releaseRoot
  split
  · exact refl owner s
  · rename_i c here
    exact settle pinsOwned here .idle (.release r) (own c here)

theorem fireStashed {i position : Nat} (own : s.FiresOnOwn i position) :
    Unbinds owner s (s.fireStashed i position).1 := by
  unfold Session.fireStashed
  split
  · exact refl owner s
  rename_i c here
  split
  · exact refl owner s
  rename_i f stashed
  have taken : Unbinds owner s
      (s.setCollector i { c with stash := c.stash.eraseIdx position }) := by
    refine setCollector here rfl fun g keeps => Or.inl ?_
    rcases keeps with listed | pending
    · exact Or.inl (List.mem_of_mem_eraseIdx listed)
    · exact Or.inr pending
  have own := own c f here stashed
  rw [s.modifyCollector_eq here] at own ⊢
  refine taken.trans (deliver (pinsOwned.unbinds taken) .idle ?_ own)
  exact pinsOwned.fits i c f here (Or.inl (List.mem_of_getElem? stashed))

/-- A finalizer that fits is kept, run or refused. -/
theorem define (focus : Focus) (i : Nat) (r : ObjectRef) {f : Finalizer}
    (fits : ∀ c, s.collector? i = some c → f.Fits owner s.cells.size c.heap.pins)
    (own : s.DefinesOnOwn focus i r f) : Unbinds owner s (s.define focus i r f).1 := by
  cases here : s.collector? i with
  | none =>
    unfold Session.define
    rw [here]
    exact refl owner s
  | some c =>
    rcases s.define_cases here focus r f with ⟨e, refused⟩ | ⟨c', ran, a, t, received, done, after⟩
    · rw [refused]
      exact setCollector here rfl fun g keeps => Or.inl keeps
    · have own := own c here
      rw [done] at own ⊢
      have taken : Unbinds owner s (s.setCollector i c') := by
        refine setCollector here received.pins.1 fun g keeps => ?_
        rcases received.kept_cases keeps with same | kept
        · exact Or.inr (same ▸ fits c here)
        · exact Or.inl kept
      cases ran with
      | false =>
        have after : t = _ := after
        rw [after]
        exact taken
      | true =>
        have ran : t.runs = s.runs.push f := by
          rcases after with after | counted
          · rw [after]
            exact runs_deliver _ _ _ _
          · rw [counted]
            exact runs_deliver _ _ _ _
        have own := own ran
        rw [s.modifyCollector_eq here, ← received.advanced] at own
        have delivered := taken.trans (deliver (pinsOwned.unbinds taken) focus (fits c here) own)
        rcases after with after | counted
        · rw [after]
          exact delivered
        · rw [counted]
          exact delivered.trans (upkeep i fun _ => .countRun 1)

omit pinsOwned in
/-- The pin set of a heap is empty when the heap goes. -/
theorem close {P : Nat} (here : s.pinsOf i = some P) : Unbinds owner s
    { s.clearPins P with collectors := s.collectors.setIfInBounds i none } where
  size := rfl
  ends _ bound := bound
  pins P h pinned := by
    change h ∈ (s.clearPins _).pinned P at pinned
    rw [clearPins, pinned_modifyPins] at pinned
    split at pinned
    · exact absurd pinned (Roster.not_mem_empty h)
    · exact pinned
  paid _ _ _ _ bound _ := bound
  held _ _ _ held _ := held
  keeps j d there := by
    unfold collector? at there
    rw [Array.getElem?_setIfInBounds] at there
    split at there
    · split at there <;> cases there
    · exact ⟨d, there, rfl, fun _ => Or.inl⟩
  stays k P h before pinned := by
    have other : i ≠ k := by
      intro same
      rw [← same, here] at before
      rw [← Option.some.inj before] at pinned
      exact s.not_mem_pinned_clearPins _ h pinned
    unfold Session.pinsOf collector? at *
    rw [Array.getElem?_setIfInBounds, if_neg other]
    exact before

theorem shutDown {i : Nat} (own : s.ShutsDownOnOwn i) : Unbinds owner s (s.shutDown i) := by
  unfold Session.shutDown
  split
  · rename_i c here
    have fits : ∀ f ∈ c.heap.pendingDirect ++ c.heap.pendingIndirect.flatMap Prod.snd,
        f.Fits owner s.cells.size c.heap.pins := by
      intro f listed
      have all : c.heap.pendingIndirect.Perm c.heap.sideTable.pairs := List.mergeSort_perm _ _
      obtain ⟨q, pending⟩ := (Heap.mem_drained all f).mp listed
      exact pinsOwned.fits i c f here (Or.inr ⟨q, pending⟩)
    have tornDown : Unbinds owner s (s.recordTornDown c.heap.runtime) := .recordTornDown _
    have there := (s.collector?_recordTornDown c.heap.runtime i).trans here
    unfold shutDownIn
    dsimp only
    cases policy : c.heap.config.teardown with
    | fire =>
      have own := own c here policy
      rw [modifyHeap_eq there] at own ⊢
      have drained := tornDown.trans (emptied there)
      rw [← drained.size] at fits
      have delivered := drained.trans (deliverAll (pinsOwned.unbinds drained) .idle fits own)
      refine delivered.trans (close ?_)
      rw [pinsOf_congr (collectors_deliverAll _ _ _ _), Session.pinsOf,
        collector?_setCollector_self there]
      rfl
    | drop =>
      have told : Unbinds owner s ((s.recordTornDown c.heap.runtime).emit (.discarded
          (c.heap.pendingDirect ++ c.heap.pendingIndirect.flatMap Prod.snd).length)) :=
        tornDown.trans (emit _ _)
      exact told.trans (close (congrArg (Option.map _) there))
  · exact refl owner s

end Heaps

section References
variable (pinsOwned : PinsOwned owner s)
include pinsOwned

theorem refresh {focus : Focus} (own : s.RefreshesOnOwn focus i a) :
    Unbinds owner s (s.refresh focus i a) := by
  unfold Session.refresh
  split
  · rename_i indirect
    exact collect pinsOwned (own indirect)
  · exact refl owner s

variable (owns : s.Owns owner a) (ofHeap : s.IsHeapOf i a)
include owns ofHeap

theorem object {focus : Focus} (own : s.LooksOnOwn focus i a) :
    Unbinds owner s (s.object focus i a).1 := by
  unfold Session.object
  split
  · exact refl owner s
  · rename_i x runtime
    split
    · rename_i alive
      have first := refresh pinsOwned (own x runtime alive)
      exact first.trans (read (pinsOwned.unbinds first) (first.owns owns) (first.isHeapOf ofHeap))
    · exact refl owner s

theorem defineOn {focus : Focus} (own : s.LooksOnOwn focus i a) {f : Finalizer}
    (fits : ∀ c, s.collector? i = some c → f.Fits owner s.cells.size c.heap.pins)
    (runs : ∀ r, (s.object focus i a).2 = some r →
      (s.object focus i a).1.DefinesOnOwn focus i r f) :
    Unbinds owner s (s.defineOn focus i a f).1 := by
  have found := object pinsOwned owns ofHeap own
  unfold Session.defineOn
  dsimp only
  split
  · exact found
  · rename_i r answer
    refine found.trans (define (pinsOwned.unbinds found) focus i _ (fun c here => ?_)
      (runs r answer))
    obtain ⟨d, before, pins, _⟩ := found.keeps i c here
    rw [found.size, pins]
    exact fits d before

end References

section Maps
variable {m : Nat} {key : String}

theorem thinned (keep : String → WeakReference → Bool) :
    Unbinds owner s (s.modifyEntries m (·.filter keep)) := by
  refine still rfl (fun _ => rfl) rfl fun p a b there _ => ?_
  cases p with
  | ref r => exact there
  | entry x key =>
    change Session.entry? (s.modifyEntries m _) x key = some a at there
    rw [entry?_modifyEntries] at there
    split at there
    · obtain ⟨entries, here, inside⟩ := Option.bind_eq_some_iff.mp there
      change s.entry? x key = some a
      rw [entry?_eq, here]
      exact (Table.get?_filter_eq_some_iff.mp inside).1
    · exact there
  | hand => exact there

variable (pinsOwned : PinsOwned owner s)
include pinsOwned

theorem pruneMap (m : Nat) : Unbinds owner s (s.pruneMap m) := by
  unfold Session.pruneMap
  split
  · exact refl owner s
  · rename_i map here
    have owns : ∀ a ∈ map.prune.2, s.Owns owner a := by
      intro a evicted
      obtain ⟨key, there, _⟩ := (map.mem_prune a).mp evicted
      exact pinsOwned.owns (.entry m key) a ((s.entry?_eq_some_iff).mpr ⟨map, here, there⟩)
    have same := s.sameButBindings_discardAll map.prune.2
    have inside : m < (s.discardAll map.prune.2).maps.size := by
      rw [same.maps]
      exact s.lt_size_of_map? here
    have placed : Unbinds owner s ((s.discardAll map.prune.2).setMap m (some map.prune.1)) := by
      refine (discardAll owns).trans (still rfl (fun _ => rfl) rfl fun p a b there _ => ?_)
      rcases held_setMap inside there with ⟨key, map', at_p, new, listed⟩ | before
      · cases new
        have kept := ((map.get?_prune key a).mp listed).1
        rw [at_p]
        exact (same.entry? m key).trans ((s.entry?_eq_some_iff).mpr ⟨map, here, kept⟩)
      · exact before
    dsimp only
    split
    · exact placed
    · exact placed.trans (emit _ _)

theorem mapGet (ofHeap : s.IsHeapAt i (.entry m key))
    (own : ∀ a, Session.entry? (s.pruneMap m) m key = some a →
      (s.pruneMap m).LooksOnOwn (.map m) i a) :
    Unbinds owner s (s.mapGet i m key).1 := by
  have pruned := pruneMap pinsOwned m
  unfold Session.mapGet
  split
  · exact refl owner s
  · dsimp only
    split
    · exact pruned
    · rename_i r there
      have pinsOwned' := pinsOwned.unbinds pruned
      have found := object pinsOwned' (pinsOwned'.owns (.entry m key) r there)
        (pruned.isHeapAt ofHeap r there) (own r there)
      exact (pruned.trans found).trans (pruneMap (pinsOwned'.unbinds found) m)

theorem mapRemove (ofHeap : s.IsHeapAt i (.entry m key)) :
    Unbinds owner s (s.mapRemove i m key).1 := by
  have pruned := pruneMap pinsOwned m
  unfold Session.mapRemove
  split
  · exact refl owner s
  · rename_i c here
    dsimp only
    split
    · exact pruned
    · rename_i r there
      have pinsOwned' := pinsOwned.unbinds pruned
      have owns := pinsOwned'.owns (.entry m key) r there
      have ofHeap' := pruned.isHeapAt ofHeap r there
      have found := read pinsOwned' owns ofHeap'
      have here' : ((s.pruneMap m).read i r).1.collector? i = some c :=
        ((sameButBindings_read _ i r).collector? i).trans
          ((s.collector?_pruneMap m i).trans here)
      have disarmed := disarm (pinsOwned'.unbinds found) (found.owns owns)
        ((found.isHeapOf ofHeap').isPinSetOf here')
      exact (pruned.trans (found.trans disarmed)).trans (thinned _)

theorem sweepEntries {pairs : List (String × WeakReference)}
    (owns : ∀ pair ∈ pairs, s.Owns owner pair.2) (ofHeap : ∀ pair ∈ pairs, s.IsHeapOf i pair.2) :
    Unbinds owner s (s.sweepEntries i pairs).1 := by
  induction pairs generalizing s with
  | nil => exact refl owner s
  | cons pair rest ih =>
    obtain ⟨key, r⟩ := pair
    have found := read pinsOwned (owns _ List.mem_cons_self) (ofHeap _ List.mem_cons_self)
    have extensions {t : Session} (first : Unbinds owner s t) :
        Unbinds owner s (t.sweepEntries i rest).1 :=
      first.trans (ih (pinsOwned.unbinds first)
        (fun pair listed => first.owns (owns pair (List.mem_cons_of_mem _ listed)))
        (fun pair listed => first.isHeapOf (ofHeap pair (List.mem_cons_of_mem _ listed))))
    unfold Session.sweepEntries
    dsimp only
    split
    · exact extensions found
    · exact extensions (found.trans (discard (found.owns (owns _ List.mem_cons_self))))

theorem mapUpdate (ofHeap : ∀ key, s.IsHeapAt i (.entry m key)) :
    Unbinds owner s (s.mapUpdate i m) := by
  have pruned := pruneMap pinsOwned m
  unfold Session.mapUpdate
  split
  · exact refl owner s
  dsimp only
  split
  · exact pruned
  rename_i map here
  have pinsOwned' := pinsOwned.unbinds pruned
  have listed : ∀ pair ∈ map.entries.pairs, (s.pruneMap m).held (.entry m pair.1) = some pair.2 :=
    fun pair inside => (entry?_eq_some_iff _).mpr ⟨map, here, Table.get?_eq_some_iff.mpr inside⟩
  have swept := pruned.trans (sweepEntries (i := i) pinsOwned'
    (fun pair inside => pinsOwned'.owns _ _ (listed pair inside))
    (fun pair inside => pruned.isHeapAt (ofHeap pair.1) _ (listed pair inside)))
  have left := swept.trans (thinned (m := m) fun key _ =>
    !((s.pruneMap m).sweepEntries i map.entries.pairs).2.contains key)
  split
  · exact left
  · exact left.trans (emit _ _)

end Maps

end Unbinds

end Session

end WeakRefs
