import WeakRefs.Text.Pattern.Mode

/-!
# Escapes in patterns

A backslash makes the next character plain, names a character by its number, or asks for a class of
characters or for an edge.
-/

namespace WeakRefs

namespace Pattern

inductive Escape where
  | char (c : Char) (isByte : Bool)
  | charClass (isNegated : Bool)
  | edge (isOfWord : Bool)
  deriving DecidableEq

def hexDigit? (c : Char) : Option Nat :=
  if c.isDigit then some (c.toNat - '0'.toNat)
  else if 'a'.toNat ≤ c.toNat && c.toNat ≤ 'f'.toNat then some (c.toNat - 'a'.toNat + 10)
  else if 'A'.toNat ≤ c.toNat && c.toNat ≤ 'F'.toNat then some (c.toNat - 'A'.toNat + 10)
  else none

def hexNumber? (m : Mode) : Nat → Nat → List Char → Option (Nat × List Char)
  | 0, value, cs => some (value, cs)
  | digits + 1, value, cs =>
    match m.skip cs with
    | [] => none
    | c :: rest => (hexDigit? c).bind fun d => hexNumber? m digits (16 * value + d) rest

def numbered? (m : Mode) (digits : Nat) (isByte : Bool) (cs : List Char) :
    Option (Escape × List Char) :=
  (hexNumber? m digits 0 cs).bind fun (n, rest) =>
    if n.isValidChar then some (.char (Char.ofNat n) isByte, rest) else none

/-- Whether a backslash makes a character plain: every ASCII character but letters, digits and the
angles, which mean word edges. -/
def isPlainAfterBackslash (c : Char) : Bool :=
  c.toNat < 0x80 && !c.isAlphanum && c ≠ '<' && c ≠ '>'

def escape? (m : Mode) : List Char → Option (Escape × List Char)
  | [] => none
  | c :: rest =>
    match c with
    | 'x' => numbered? m 2 true rest
    | 'u' => numbered? m 4 false rest
    | 'U' => numbered? m 8 false rest
    | 'd' | 's' | 'w' => some (.charClass false, rest)
    | 'D' | 'S' | 'W' => some (.charClass true, rest)
    | 'a' => some (.char '\x07' false, rest)
    | 'f' => some (.char '\x0c' false, rest)
    | 'n' => some (.char '\n' false, rest)
    | 'r' => some (.char '\r' false, rest)
    | 't' => some (.char '\t' false, rest)
    | 'v' => some (.char '\x0b' false, rest)
    | 'A' | 'z' => some (.edge false, rest)
    | 'b' | 'B' | '<' | '>' => some (.edge true, rest)
    | c => if isPlainAfterBackslash c then some (.char c false, rest) else none

end Pattern

end WeakRefs
