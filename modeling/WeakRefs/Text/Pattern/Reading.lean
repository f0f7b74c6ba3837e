import WeakRefs.Text.Numeric
import WeakRefs.Text.Pattern.Bracket

/-!
# Reading patterns

`isPattern` decides which texts are patterns. What a pattern matches is of no concern here, so a
reading keeps no tree but only the heights of its parts.
-/

namespace WeakRefs

namespace Pattern

structure Level where
  branches : List Nat := []
  /-- The heights of the pieces of the current alternative, the last piece first; none for a setting
  of flags, which cannot be repeated. -/
  pieces : List (Option Nat) := []
  deriving DecidableEq

namespace Level

def add (l : Level) (height : Nat) : Level := { l with pieces := some height :: l.pieces }

def addSetting (l : Level) : Level := { l with pieces := none :: l.pieces }

def branch (l : Level) : Nat := heightOfAll (l.pieces.map (·.getD 0))

def split (l : Level) : Level := { branches := l.branch :: l.branches }

def height (l : Level) : Nat := heightOfAll (l.branch :: l.branches)

def repeat? (l : Level) : Option Level :=
  match l.pieces with
  | some h :: pieces => some { l with pieces := some (h + 1) :: pieces }
  | _ => none

end Level

structure Reading where
  mode : Mode := {}
  level : Level := {}
  around : List (Mode × Level) := []
  names : List (List Char) := []

namespace Reading

def add (r : Reading) (height : Nat) : Reading := { r with level := r.level.add height }

def enter (r : Reading) (mode : Mode) : Reading :=
  { r with mode, level := {}, around := (r.mode, r.level) :: r.around }

def leave? (r : Reading) : Option Reading :=
  match r.around with
  | [] => none
  | (mode, level) :: around =>
    some { r with mode, level := level.add (r.level.height + 1), around }

end Reading

def isName : List Char → Bool
  | [] => false
  | c :: cs =>
    (c = '_' || Alphabetic.isAlphabetic c)
      && cs.all fun c => ['_', '.', '[', ']'].contains c || isAlphanumeric c

def named? (r : Reading) (cs : List Char) : Option (Reading × List Char) :=
  let name := cs.takeWhile (· ≠ '>')
  match cs.dropWhile (· ≠ '>') with
  | _ :: rest =>
    if isName name && !r.names.contains name then
      some ({ r.enter r.mode with names := name :: r.names }, rest)
    else none
  | [] => none

def group? (r : Reading) (cs : List Char) : Option (Reading × List Char) :=
  match r.mode.skip cs with
  | '?' :: 'P' :: '<' :: rest => named? r rest
  | '?' :: '<' :: rest => named? r rest
  | '?' :: rest =>
    (flags? r.mode [] false false rest).map fun (mode, isGroup, rest) =>
      (if isGroup then r.enter mode else { r with mode, level := r.level.addSetting }, rest)
  | cs => some (r.enter r.mode, cs)

def Mode.admitsPiece (m : Mode) : Escape → Bool
  | .char c isByte => m.admitsChar c isByte
  | .charClass isNegated => m.admitsClass isNegated
  | .edge isOfWord => !isOfWord || m.admitsWordEdge

def piece? (r : Reading) (c : Char) (rest : List Char) : Option (Reading × List Char) :=
  match c with
  | '(' => group? r rest
  | ')' => r.leave?.map (·, rest)
  | '|' => some ({ r with level := r.level.split }, rest)
  | '[' => (charClass? r.mode rest).map fun (height, rest) => (r.add height, rest)
  | '?' | '*' | '+' =>
    let rest := match rest with
      | '?' :: rest => rest
      | rest => rest
    r.level.repeat?.map fun level => ({ r with level }, rest)
  | '{' => none
  | '\\' =>
    (escape? r.mode rest).bind fun (e, rest) =>
      if r.mode.admitsPiece e then some (r.add 0, rest) else none
  | '.' => if r.mode.admitsAny then some (r.add 0, rest) else none
  | '^' | '$' => some (r.add 0, rest)
  | c => if r.mode.admitsChar c false then some (r.add 0, rest) else none

/-- Read a pattern to its end: its height. Every turn takes a character, so that one more than the
length of the text is fuel enough. -/
def read? : Nat → Reading → List Char → Option Nat
  | 0, _, _ => none
  | fuel + 1, r, cs =>
    match r.mode.skip cs with
    | [] => if r.around.isEmpty then some r.level.height else none
    | c :: rest => (piece? r c rest).bind fun (r, rest) => read? fuel r rest

def maxHeight : Nat := 250

def isPattern (text : List Char) : Bool :=
  (read? (text.length + 1) {} text).any (· ≤ maxHeight)

end Pattern

end WeakRefs
