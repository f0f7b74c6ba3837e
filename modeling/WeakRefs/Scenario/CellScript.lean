import WeakRefs.Cell
import WeakRefs.Scenario.Step

/-!
# Scripts for a single binding cell

Each call on one fresh cell is answered together with the cell that it leaves.
-/

namespace WeakRefs

namespace Cell
variable {τ : Type}

/-- Play a script; a call that is not understood changes nothing. -/
def play (c : Cell τ) : List (Option (Call τ)) → List (Except Fault Answer × Cell τ)
  | [] => []
  | none :: rest => (.error .badStep, c) :: play c rest
  | some step :: rest =>
    let done := c.call step
    (.ok done.2, done.1) :: play done.1 rest

end Cell

end WeakRefs
