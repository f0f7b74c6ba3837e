import WeakRefs.Proofs.PinPermissions.Operations
import WeakRefs.Proofs.EntriesOfGoneHeaps

/-!
# What references do whose heap is gone

To look up a reference whose heap is gone finds nothing, and to let go of it changes no pin set but
that of its heap. An entry whose heap is gone answers as an absent one.
-/

namespace WeakRefs

namespace Session
variable {s : Session} {a : WeakReference} {q x : Nat} {key : String}

/-- The end of a binding changes nothing in this pin set: it is over, or its pin is in another. -/
def ClearOf (s : Session) (q : Nat) (a : WeakReference) : Prop :=
  ∀ b, a.binding = some b → s.isBound a = false ∨ b.pins ≠ q

section Pins

theorem pinned_supersede_of {pins c : Nat} {handle : HandleId}
    (away : (s.cell c).isBound = true → pins = q → ¬ handle ∈ s.pinned q) :
    (s.supersede pins c handle).pinned q = s.pinned q := by
  unfold supersede
  dsimp only
  split
  · rename_i bound
    rw [Cell.supersede_snd] at bound
    rw [unpin, pinned_modifyPins, pinned_setCell]
    split
    · rename_i inside
      exact Roster.erase_of_not_mem (away bound inside.1)
    · rfl
  · rfl

/-- A handle that is not pinned in a pin set is not missed there. -/
theorem pinned_releaseRef_of {roots r : Nat}
    (unpinned : ∀ a, s.ref? r = some a → ¬ a.id ∈ s.pinned roots) :
    (s.releaseRef roots r).pinned q = s.pinned q := by
  unfold releaseRef
  split
  · rename_i a there
    change (s.disarm roots a).pinned q = s.pinned q
    unfold disarm
    split
    · exact pinned_supersede_of fun _ same => same ▸ unpinned a there
    · rfl
  · rfl

namespace ClearOf

theorem of_ends {s' : Session} (clear : s.ClearOf q a)
    (ends : ∀ d t, s'.cell d = .bound t → s.cell d = .bound t) : s'.ClearOf q a := by
  intro b binding
  rcases clear b binding with unbound | other
  · exact Or.inl (isBound_of_ends ends unbound)
  · exact Or.inr other

theorem pinned_discard (clear : s.ClearOf q a) : (s.discard a).pinned q = s.pinned q := by
  unfold discard
  split
  · rename_i b binding
    refine pinned_supersede_of fun bound same => ?_
    have in_force : s.isBound a = true := (s.isBound_of_binding binding).trans bound
    rcases clear b binding with unbound | other
    · rw [in_force] at unbound
      cases unbound
    · exact absurd same other
  · rfl

theorem pinned_discardAll {rs : List WeakReference} (clear : ∀ a ∈ rs, s.ClearOf q a) :
    (s.discardAll rs).pinned q = s.pinned q := by
  induction rs generalizing s with
  | nil => rfl
  | cons a rest ih =>
    have first := (clear a List.mem_cons_self).pinned_discard
    have later : ∀ r ∈ rest, (s.discard a).ClearOf q r := fun r listed =>
      (clear r (List.mem_cons_of_mem _ listed)).of_ends fun _ _ => s.bound_of_discard a
    exact (ih later).trans first

/-- A pruning lets go of what was reported. -/
theorem pinned_pruneMap (clear : ∀ map key r, s.map? x = some map →
      map.entries.get? key = some r → (key, r.id) ∈ map.dead → s.ClearOf q r) :
    (s.pruneMap x).pinned q = s.pinned q := by
  unfold pruneMap
  split
  · rfl
  · rename_i map present
    have same : (s.discardAll map.prune.2).pinned q = s.pinned q := by
      refine pinned_discardAll fun r evicted => ?_
      obtain ⟨key, there, reported⟩ := (map.mem_prune r).mp evicted
      exact clear map key r present there reported
    dsimp only
    split <;> exact same

theorem pinned_dropRef {r : Nat} (clear : ∀ a, s.ref? r = some a → s.ClearOf q a) :
    (s.dropRef r).pinned q = s.pinned q := by
  unfold dropRef
  split
  · rename_i a there
    exact (clear a there).pinned_discard
  · rfl

theorem pinned_dropMap (clear : ∀ key r, s.entry? x key = some r → s.ClearOf q r) :
    (s.dropMap x).pinned q = s.pinned q := by
  unfold dropMap
  split
  · rename_i map present
    have same : (s.discardAll map.references).pinned q = s.pinned q := by
      refine pinned_discardAll fun r listed => ?_
      obtain ⟨key, there⟩ := (map.mem_references r).mp listed
      exact clear key r (s.entry?_eq_some_iff.mpr ⟨map, present, there⟩)
    exact same
  · rfl

end ClearOf

end Pins

section Lookup
variable {k : Nat} {c : Collector}

theorem object_of_tornDown (dead : ∀ y, a.runtime? = some y → s.isAlive y = false) (focus : Focus)
    (k : Nat) : s.object focus k a = (s, none) := by
  unfold object
  split
  · rfl
  · rename_i y its
    rw [dead y its, if_neg Bool.false_ne_true]

theorem setMap_self {map : WeakValueMap} (present : s.map? x = some map) :
    s.setMap x (some map) = s := by
  unfold setMap
  congr 1
  apply Array.ext_getElem?
  intro y
  rw [Array.getElem?_setIfInBounds]
  split
  · rename_i same
    subst same
    rw [if_pos (s.lt_size_of_map? present)]
    exact (Option.join_eq_some_iff.mp present).symm
  · rfl

theorem pruneMap_of_unreported {map : WeakValueMap} (present : s.map? x = some map)
    (unreported : map.dead = []) : s.pruneMap x = s := by
  have kept : map.prune = (map, []) := by
    unfold WeakValueMap.prune
    rw [unreported]
    cases map
    cases unreported
    rfl
  unfold pruneMap
  rw [present]
  dsimp only
  rw [kept]
  exact setMap_self present

theorem mapGet_of_tornDown (here : s.collector? k = some c)
    (dead : ∀ r y, Session.entry? (s.pruneMap x) x key = some r → r.runtime? = some y →
      s.isAlive y = false) : s.mapGet k x key = (s.pruneMap x, none) := by
  unfold mapGet
  rw [here]
  dsimp only
  split
  · rfl
  · rename_i r left
    have found : (s.pruneMap x).object (.map x) k r = (s.pruneMap x, none) := by
      refine object_of_tornDown (fun y its => ?_) _ k
      rw [isAlive, s.alive_pruneMap x]
      exact dead r y left its
    obtain ⟨map, present, _⟩ := s.entry?_eq_some_iff.mp (entry?_of_pruneMap left).1
    rw [found, pruneMap_of_unreported (map?_pruneMap present) map.dead_prune]

section Emptied
variable (vacant : ∀ key, Session.entry? (s.pruneMap x) x key = none)
include vacant

theorem entry?_mapInsert (here : s.collector? k = some c) {v : ObjectRef} {new : String}
    {r : WeakReference} (there : Session.entry? (s.mapInsert k x new v).1 x key = some r) :
    r.id = s.freshHandle.2 ∧ new = key := by
  cases present : s.map? x with
  | none =>
    rw [mapInsert_of_missing (Or.inr present), entry?, present] at there
    cases there
  | some map =>
    have fresh : (s.pruneMap x).freshHandle.2 = s.freshHandle.2 := by
      unfold freshHandle
      rw [s.handles_pruneMap x]
    have none_of {t : Session} (same : t.entries? x = (s.pruneMap x).entries? x) (key : String) :
        t.entry? x key = none := by
      rw [entry?_eq, same, ← entry?_eq]
      exact vacant key
    have made := (stableView_entries? x).bindNew (s.pruneMap x) k v
    have defined (r : WeakReference) := ((stableView_entries? x).define _ k v
      (.report x new r.id)).trans made
    unfold mapInsert at there
    rw [here, present] at there
    dsimp only at there
    split at there
    · rw [none_of made] at there
      cases there
    · rename_i q bound
      split at there
      · have discarded := ((stableView_entries? x).same (sameButBindings_discard _ q)).trans
          (defined q)
        rw [none_of discarded] at there
        cases there
      · obtain ⟨map', present', _⟩ := Option.map_eq_some_iff.mp
          ((defined q).trans (entries?_pruneMap present))
        rw [ entry?, map?_placeEntry c.heap.pins present', Option.bind_some,
          Table.get?_insert] at there
        split at there
        · rename_i same
          cases there
          exact ⟨(id_of_bindNew _ _ bound).trans fresh, same.symm⟩
        · have before := none_of (defined q) key
          rw [ entry?, present', Option.bind_some] at before
          rw [before] at there
          cases there

/-- So it is after any operation on the map. -/
theorem entry?_of_pruned (here : s.collector? k = some c) {op : Op} (works : op.map? = some x)
    (through : op.heap? = some k) {r : WeakReference}
    (there : Session.entry? (s.perform op).1 x key = some r) :
    r.id = s.freshHandle.2 ∧ ∃ v, op = .mapInsert k x key v := by
  cases op with
  | mapInsert j y new v =>
    cases works
    cases through
    rw [perform_mapInsert] at there
    obtain ⟨fresh, same⟩ := entry?_mapInsert vacant here there
    exact ⟨fresh, v, same ▸ rfl⟩
  | mapGet j y new =>
    cases works
    cases through
    have done : s.mapGet k x new = (s.pruneMap x, none) :=
      mapGet_of_tornDown here fun r y left => by
        rw [vacant new] at left
        cases left
    change Session.entry? (s.mapGet k x new).1 x key = some r at there
    rw [done, vacant key] at there
    cases there
  | mapRemove j y new =>
    cases works
    cases through
    change Session.entry? (s.mapRemove k x new).1 x key = some r at there
    unfold mapRemove at there
    rw [here] at there
    dsimp only at there
    rw [vacant new] at there
    dsimp only at there
    rw [vacant key] at there
    cases there
  | mapUpdate j y =>
    cases works
    cases through
    change Session.entry? (s.mapUpdate k x) x key = some r at there
    have left {t : Session} (same : SameButBindings (s.pruneMap x) t)
        (keep : String → WeakReference → Bool) :
        Session.entry? (t.modifyEntries x (·.filter keep)) x key = none := by
      rw [entry?_filter, same.entry? x key, vacant key]
      rfl
    unfold mapUpdate at there
    rw [here] at there
    dsimp only at there
    split at there
    · rw [vacant key] at there
      cases there
    · rename_i map present
      have swept := (s.pruneMap x).sameButBindings_sweepEntries k map.entries.pairs
      have none_there := left swept fun key _ =>
        !((s.pruneMap x).sweepEntries k map.entries.pairs).2.contains key
      split at there
      · rw [none_there] at there
        cases there
      · have there : Session.entry? (Session.modifyEntries _ x _) x key = some r := there
        rw [none_there] at there
        cases there
  | _ => cases works

end Emptied

end Lookup

end Session

def WeakReference.IsOf (r : WeakReference) (x : InstanceId) (P : Nat) : Prop :=
  ∃ b, r.binding = some b ∧ b.runtime = x ∧ b.pins = P

section Entries
variable {s : Session} {k q x : Nat} {key : String} {r : WeakReference} {c : Collector}
variable {y : InstanceId} {P : Nat} {map : WeakValueMap}

theorem BindingEnds.unbound (ends : BindingEnds r ⟨s, none, [], []⟩) : s.isBound r = false := by
  rcases ends with unbound | ⟨_, _, flies⟩
  · exact unbound
  · cases flies

/-- Pruning leaves no entry whose value is gone. -/
theorem StaleEntry.left {first : WeakReference → Prop}
    (stale : StaleEntry first x key ⟨s, none, [], []⟩)
    (left : Session.entry? (s.pruneMap x) x key = some r) : first r := by
  obtain ⟨there, unreported⟩ := Session.entry?_of_pruneMap left
  rcases stale r there with was | valueGone
  · exact was
  · obtain ⟨map, present, _⟩ := s.entry?_eq_some_iff.mp there
    rcases valueGone.reported with flies | listed
    · cases flies
    · exact absurd (listed map present) (unreported map present)

theorem StaleEntry.clearOf (stale : StaleEntry (·.IsOf y P) x key ⟨s, none, [], []⟩)
    (there : s.entry? x key = some r) (other : q ≠ P) : s.ClearOf q r := by
  intro b binding
  rcases stale r there with ⟨b', binding', _, pins⟩ | valueGone
  · rw [binding] at binding'
    cases binding'
    right
    rw [pins]
    exact other.symm
  · exact Or.inl (BindingEnds.unbound valueGone.ended)

/-- No heap attends to the entries of one that is gone. -/
theorem EndsOrBothKept.of_stale {m : Moment} (stale : StaleEntry (·.IsOf y P) x key m)
    (gone : Gone y P m.session) :
    EndsOrBothKept k x key m := by
  intro c r b at_k there binding ofHeap
  rcases stale r there with ⟨b', binding', runtime, _⟩ | valueGone
  · rw [binding] at binding'
    cases binding'
    exact absurd (ofHeap.symm.trans runtime) (gone.runtime k c at_k)
  · exact Or.inl valueGone.ended

/-- The end of a reported entry changes nothing in the pin set of a heap that attends to it. -/
theorem EndsOrBothKept.clearOf (endsOrKept : EndsOrBothKept k x key ⟨s, none, [], []⟩)
    (pinsMatch : PinsMatchRuntime ⟨s, none, [], []⟩) (at_k : s.collector? k = some c)
    (present : s.map? x = some map) (there : map.entries.get? key = some r)
    (reported : (key, r.id) ∈ map.dead) : s.ClearOf c.heap.pins r := by
  have there := s.entry?_eq_some_iff.mpr ⟨map, present, there⟩
  intro b binding
  by_cases same : b.pins = c.heap.pins
  · have ofHeap := (pinsMatch.pairs (.entry x key) r b k c there binding at_k).mp same
    rcases endsOrKept c r b at_k there binding ofHeap with ends | ⟨v, bothKept⟩
    · exact Or.inl ends.unbound
    · exact absurd reported (bothKept.unreported map present)
  · exact Or.inr same

end Entries

/-- An operation that no heap notices. -/
structure Unnoticed (s : Session) (op : Op) : Prop where
  collectors : (s.perform op).1.collectors = s.collectors
  runs : (s.perform op).1.runs = s.runs
  pins : ∀ k c, s.collector? k = some c → (s.perform op).1.pinned c.heap.pins = s.pinned c.heap.pins

section Outlived
variable {s : Session} {x P : Nat} {y : InstanceId} {key : String}

/-- The value of an entry whose heap is gone is absent, and its lookup goes unnoticed. -/
theorem StaleEntry.perform_mapGet (stale : StaleEntry (·.IsOf y P) x key ⟨s, none, [], []⟩)
    (dead : s.isAlive y = false) (pinsMatch : PinsMatchRuntime ⟨s, none, [], []⟩)
    (endsOrKept : ∀ k key, EndsOrBothKept k x key ⟨s, none, [], []⟩) (k : Nat) :
    (s.perform (.mapGet k x key)).2 = .object none ∧ Unnoticed s (.mapGet k x key) := by
  have done : s.mapGet k x key = (s, none) ∨ s.mapGet k x key = (s.pruneMap x, none) := by
    cases here : s.collector? k with
    | none =>
      left
      unfold Session.mapGet
      rw [here]
    | some c =>
      refine Or.inr (Session.mapGet_of_tornDown here fun r z left its => ?_)
      obtain ⟨b, binding, runtime, _⟩ := stale.left left
      rw [WeakReference.runtime?, binding] at its
      cases its
      rw [runtime]
      exact dead
  have performed : s.perform (.mapGet k x key) =
      ((s.mapGet k x key).1, .object (s.mapGet k x key).2) := rfl
  rcases done with same | pruned
  · rw [same] at performed
    rw [performed]
    refine ⟨rfl, ?_, ?_, fun _ _ _ => ?_⟩ <;> rw [performed]
  · rw [pruned] at performed
    have leaves := Session.leavesHeaps_pruneMap s x
    refine ⟨by rw [performed], ?_, ?_, fun j c at_j => ?_⟩
    · rw [performed]
      exact leaves.collectors
    · rw [performed]
      exact leaves.runs
    · rw [performed]
      refine Session.ClearOf.pinned_pruneMap fun map key r present there reported => ?_
      exact (endsOrKept j key).clearOf pinsMatch at_j present there reported

theorem BoundTo.perform_object {r : Nat} {a : WeakReference} (there : s.ref? r = some a)
    (boundTo : BoundTo a.id y P ⟨s, none, [], []⟩) (dead : s.isAlive y = false) (k : Nat) :
    s.perform (.object k r) = (s, .object none) := by
  have found : s.object (.reference r) k a = (s, none) := by
    refine Session.object_of_tornDown (fun z its => ?_) _ k
    obtain ⟨b, binding, runtime⟩ := Option.map_eq_some_iff.mp its
    rw [← runtime, (boundTo (.ref r) a b there rfl binding).1]
    exact dead
  change s.withRef r _ = _
  rw [Session.withRef_of_ref? there, found]

theorem BoundTo.pinned_dropRef {r q : Nat} {a : WeakReference} (there : s.ref? r = some a)
    (boundTo : BoundTo a.id y P ⟨s, none, [], []⟩) (other : q ≠ P) :
    (s.dropRef r).pinned q = s.pinned q := by
  refine Session.ClearOf.pinned_dropRef fun a' there' b binding => ?_
  rw [there] at there'
  cases there'
  right
  rw [(boundTo (.ref r) a b there rfl binding).2]
  exact other.symm

end Outlived

end WeakRefs
