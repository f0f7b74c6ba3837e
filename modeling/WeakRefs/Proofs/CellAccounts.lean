import Mathlib.Data.List.Basic
import WeakRefs.Cell

/-!
# Accounts of a cell

The history of a cell is the list of the calls made on it, each with its answer. Each pin that an
install took is given back once, by the one call that ends the binding.
-/

namespace WeakRefs

namespace Cell
variable {τ : Type}

/-- The calls with what each of them answered, in the order in which they were made. -/
def history (c : Cell τ) (calls : List (Call τ)) : List (Call τ × Answer) :=
  calls.zip (c.answers calls)

/-- An install that took place. -/
def installs : Call τ × Answer → Bool
  | (.install _, .flag took) => took
  | _ => false

/-- A call that reports a pin to release. -/
def releases : Call τ × Answer → Bool
  | (.fire, .fired f) => f.releasesPin
  | (.clear, .flag ended) => ended
  | (.supersede, .flag ended) => ended
  | _ => false

/-- A finalizer that ran before its target was installed. -/
def firesEarly : Call τ × Answer → Bool
  | (.fire, .fired f) => f = .early
  | _ => false

/-- No install took place, and neither `fire` nor `supersede` was called. -/
def Untouched (history : List (Call τ × Answer)) : Prop :=
  ∀ e ∈ history, installs e = false ∧ e.1 ≠ .fire ∧ e.1 ≠ .supersede

/-- A history keeps accounts for the cell that it leaves behind. -/
structure Accounts (c : Cell τ) (history : List (Call τ × Answer)) : Prop where
  /-- At most one install takes place. -/
  installs_once : history.countP installs ≤ 1
  /-- An install takes place just if nothing came before it. -/
  install_iff : ∀ earlier target answer later,
    history = earlier ++ (.install target, answer) :: later →
    (answer = .flag true ↔ Untouched earlier)
  /-- The pins released and the pin held are the pins taken. -/
  balance : history.countP releases + c.isBound.toNat = history.countP installs
  /-- At most one finalizer is early. -/
  early_once : history.countP firesEarly ≤ 1
  /-- A finalizer is early just if nothing came before it. -/
  early_iff : ∀ earlier answer later, history = earlier ++ (.fire, answer) :: later →
    (answer = .fired .early ↔ Untouched earlier)
  /-- A bound cell holds what was installed. -/
  get?_iff : ∀ target, c.get? = some target ↔
    c.isBound = true ∧ (.install target, .flag true) ∈ history

section Steps
variable (c : Cell τ) (step : Call τ)

theorem balance_call :
    (releases (step, (c.call step).2)).toNat + (c.call step).1.isBound.toNat =
      (installs (step, (c.call step).2)).toNat + c.isBound.toNat := by
  cases step <;> cases c <;> rfl

theorem pending_call :
    (installs (step, (c.call step).2)).toNat + (firesEarly (step, (c.call step).2)).toNat +
      (c.call step).1.isPending.toNat ≤ c.isPending.toNat := by
  cases step <;> cases c <;> exact Nat.le_of_ble_eq_true rfl

theorem isPending_call : (c.call step).1.isPending = true ↔
    c.isPending = true ∧ installs (step, (c.call step).2) = false ∧ step ≠ .fire ∧
      step ≠ .supersede := by
  cases step <;> cases c <;> simp [call, install, fire, clear, supersede, isPending, installs]

theorem get?_call {target : τ} (held : (c.call step).1.get? = some target) :
    c.get? = some target ∨ (step, (c.call step).2) = (.install target, .flag true) := by
  cases step <;> cases c <;> simp_all [call, install, fire, clear, supersede, get?]

end Steps

section Runs
variable (c : Cell τ)

theorem history_cons (step : Call τ) (calls : List (Call τ)) :
    c.history (step :: calls) = (step, (c.call step).2) :: (c.call step).1.history calls := rfl

theorem history_split {calls : List (Call τ)} {earlier later : List (Call τ × Answer)}
    {step : Call τ} {answer : Answer} (cut : c.history calls = earlier ++ (step, answer) :: later) :
    ∃ before, earlier = c.history before ∧ answer = ((c.after before).call step).2 := by
  induction calls generalizing c earlier with
  | nil => simp [history] at cut
  | cons next rest ih =>
    rw [history_cons] at cut
    cases earlier with
    | nil =>
      obtain ⟨head, -⟩ := List.cons.inj cut
      cases head
      exact ⟨[], rfl, rfl⟩
    | cons first others =>
      obtain ⟨rfl, tail⟩ := List.cons.inj cut
      obtain ⟨before, same, answered⟩ := ih (c.call next).1 tail
      exact ⟨next :: before, by rw [history_cons, same], answered⟩

theorem countP_cons_toNat {β : Type} (p : β → Bool) (e : β) (rest : List β) :
    (e :: rest).countP p = rest.countP p + (p e).toNat := by
  rw [List.countP_cons]
  cases p e <;> rfl

theorem balance_after (calls : List (Call τ)) :
    (c.history calls).countP releases + (c.after calls).isBound.toNat =
      (c.history calls).countP installs + c.isBound.toNat := by
  induction calls generalizing c with
  | nil => simp [history, after]
  | cons step rest ih =>
    have first := balance_call c step
    have others := ih (c.call step).1
    have left_behind : c.after (step :: rest) = (c.call step).1.after rest := rfl
    rw [history_cons, left_behind, countP_cons_toNat, countP_cons_toNat]
    omega

theorem pending_after (calls : List (Call τ)) :
    (c.history calls).countP installs + (c.history calls).countP firesEarly ≤
      c.isPending.toNat := by
  induction calls generalizing c with
  | nil => simp [history]
  | cons step rest ih =>
    have first := pending_call c step
    have others := ih (c.call step).1
    rw [history_cons, countP_cons_toNat, countP_cons_toNat]
    omega

theorem isPending_after (calls : List (Call τ)) :
    (c.after calls).isPending = true ↔ c.isPending = true ∧ Untouched (c.history calls) := by
  induction calls generalizing c with
  | nil => simp [after, history, Untouched]
  | cons step rest ih =>
    have left_behind : c.after (step :: rest) = (c.call step).1.after rest := rfl
    rw [left_behind, ih, isPending_call, history_cons]
    simp only [Untouched, List.forall_mem_cons]
    tauto

theorem get?_after {calls : List (Call τ)} {target : τ}
    (held : (c.after calls).get? = some target) :
    c.get? = some target ∨ (.install target, .flag true) ∈ c.history calls := by
  induction calls generalizing c with
  | nil => exact .inl held
  | cons step rest ih =>
    rw [history_cons]
    rcases ih _ held with held | installed
    · rcases get?_call c step held with held | now
      · exact .inl held
      · exact .inr (now ▸ List.mem_cons_self)
    · exact .inr (List.mem_cons_of_mem _ installed)

end Runs

theorem eq_of_countP_le_one {β : Type} {p : β → Bool} {l : List β} (once : l.countP p ≤ 1)
    {a b : β} (first : a ∈ l) (second : b ∈ l) (pa : p a = true) (pb : p b = true) : a = b := by
  have ha : a ∈ l.filter p := List.mem_filter.mpr ⟨first, pa⟩
  have hb : b ∈ l.filter p := List.mem_filter.mpr ⟨second, pb⟩
  rw [List.countP_eq_length_filter] at once
  match both : l.filter p with
  | [] => simp [both] at ha
  | [x] =>
    rw [both, List.mem_singleton] at ha hb
    exact ha.trans hb.symm
  | x :: y :: rest => simp [both] at once

/-- Every history of a fresh cell keeps accounts. -/
theorem accounts (calls : List (Call τ)) :
    Accounts ((pending : Cell τ).after calls) (pending.history calls) := by
  have taken := pending_after (pending : Cell τ) calls
  have installs_once : ((pending : Cell τ).history calls).countP installs ≤ 1 :=
    Nat.le_trans (Nat.le_add_right _ _) taken
  refine ⟨installs_once, ?_, ?_, Nat.le_trans (Nat.le_add_left _ _) taken, ?_, ?_⟩
  · intro earlier target answer later cut
    obtain ⟨before, rfl, answered⟩ := history_split _ cut
    have untouched := isPending_after (pending : Cell τ) before
    subst answered
    simpa [call, install_snd, isPending] using untouched
  · exact balance_after (pending : Cell τ) calls
  · intro earlier answer later cut
    obtain ⟨before, rfl, answered⟩ := history_split _ cut
    have untouched := isPending_after (pending : Cell τ) before
    have early : ((pending : Cell τ).after before).fire.2 = .early ↔
        ((pending : Cell τ).after before).isPending = true := by
      cases (pending : Cell τ).after before <;> simp [fire, isPending]
    subst answered
    simpa [call, early, isPending] using untouched
  · intro target
    have installed (t : τ) (held : ((pending : Cell τ).after calls).get? = some t) :
        (.install t, .flag true) ∈ (pending : Cell τ).history calls := by
      refine (get?_after _ held).resolve_left fun before => ?_
      cases before
    constructor
    · intro held
      exact ⟨by simp [isBound, held], installed target held⟩
    · rintro ⟨bound, there⟩
      obtain ⟨t, held⟩ := Option.isSome_iff_exists.mp bound
      have same := eq_of_countP_le_one installs_once (installed t held) there rfl rfl
      cases same
      exact held

end Cell

end WeakRefs
