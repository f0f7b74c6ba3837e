/-!
# Binding cells

Each bind makes one cell, shared by the reference and by the finalizer on its target. Only the step
out of `bound` gives a pin back, and no step leads into `bound` except `install` from `pending`.
-/

namespace WeakRefs

/-- The state of one binding. -/
inductive Cell (τ : Type) where
  | pending
  | bound (target : τ)
  | cleared
  /-- Replaced by a newer bind, released or dropped; the finalizer has nothing left to do. -/
  | superseded
  deriving DecidableEq

inductive Firing where
  | cleared
  /-- The finalizer ran inside its own bind, before the pin. -/
  | early
  | ignored
  deriving DecidableEq

namespace Firing

def releasesPin (f : Firing) : Bool := f = .cleared

end Firing

namespace Cell
variable {τ : Type}

def get? : Cell τ → Option τ
  | bound target => some target
  | _ => none

def isPending : Cell τ → Bool
  | pending => true
  | _ => false

def isBound (c : Cell τ) : Bool := c.get?.isSome

def install (c : Cell τ) (target : τ) : Cell τ × Bool :=
  match c with
  | pending => (bound target, true)
  | c => (c, false)

def fire : Cell τ → Cell τ × Firing
  | bound _ => (cleared, .cleared)
  | pending => (cleared, .early)
  | c => (c, .ignored)

def clear : Cell τ → Cell τ × Bool
  | bound _ => (cleared, true)
  | c => (c, false)

/-- Disarm the cell for good; the flag tells whether it was bound. -/
def supersede (c : Cell τ) : Cell τ × Bool :=
  (superseded, c.isBound)

section Transitions
variable (c : Cell τ) (target t : τ)

theorem isBound_iff : c.isBound = true ↔ ∃ t, c = bound t := by
  cases c <;> simp [isBound, get?]

theorem get?_eq_some_iff : c.get? = some t ↔ c = bound t := by
  cases c <;> simp [get?]

theorem install_snd : (c.install target).2 = c.isPending := by
  cases c <;> rfl

@[simp] theorem isBound_fire : c.fire.1.isBound = false := by
  cases c <;> rfl

@[simp] theorem isBound_clear : c.clear.1.isBound = false := by
  cases c <;> rfl

@[simp] theorem clear_snd : c.clear.2 = c.isBound := by
  cases c <;> rfl

@[simp] theorem supersede_snd : c.supersede.2 = c.isBound := rfl

end Transitions

inductive Call (τ : Type) where
  | install (target : τ)
  | fire
  | clear
  | supersede

inductive Answer where
  | flag (b : Bool)
  | fired (f : Firing)
  deriving DecidableEq

def call (c : Cell τ) : Call τ → Cell τ × Answer
  | .install target => ((c.install target).1, .flag (c.install target).2)
  | .fire => (c.fire.1, .fired c.fire.2)
  | .clear => (c.clear.1, .flag c.clear.2)
  | .supersede => (c.supersede.1, .flag c.supersede.2)

def after (c : Cell τ) (calls : List (Call τ)) : Cell τ :=
  calls.foldl (fun c step => (c.call step).1) c

def answers (c : Cell τ) : List (Call τ) → List Answer
  | [] => []
  | step :: rest => (c.call step).2 :: answers (c.call step).1 rest

end Cell

end WeakRefs
