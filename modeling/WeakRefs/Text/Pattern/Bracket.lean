import WeakRefs.Text.Pattern.Escape

/-!
# Classes in brackets

A class lists characters, ranges, named classes and further classes, and may be combined of several
such lists. Its height counts how deep it is nested.
-/

namespace WeakRefs

namespace Pattern

def heightOfAll : List Nat → Nat
  | [] => 0
  | [h] => h
  | hs => hs.foldl Nat.max 0 + 1

structure Bracket where
  isNegated : Bool
  before : Option Nat := none
  members : List Nat := []
  deriving DecidableEq

namespace Bracket

def add (b : Bracket) (height : Nat) : Bracket := { b with members := height :: b.members }

def inner (b : Bracket) : Nat :=
  match b.before with
  | none => heightOfAll b.members
  | some h => Nat.max h (heightOfAll b.members) + 1

def split (b : Bracket) : Bracket := { b with before := some b.inner, members := [] }

def height (b : Bracket) : Nat := b.inner + 1

end Bracket

def member? (m : Mode) : List Char → Option (Escape × List Char)
  | [] => none
  | '\\' :: rest => escape? m rest
  | c :: rest => some (.char c false, rest)

def Mode.admitsEscape (m : Mode) : Escape → Bool
  | .char c _ => m.admitsMember c
  | .charClass isNegated => m.admitsClass isNegated
  | .edge _ => false

/-- What decides whether a hyphen begins the second half of a range: the next character, in a spaced
mode without blanks and without one number sign. -/
def afterHyphen? (m : Mode) (cs : List Char) : Option Char :=
  if m.spaced then
    let next := match cs.dropWhile Blank.isBlank with
      | '#' :: rest => (rest.dropWhile Blank.isBlank).head?
      | rest => rest.head?
    next <|> cs.head?
  else cs.head?

def rangeEnd? (m : Mode) (low : Char) (cs : List Char) : Option (List Char) :=
  (member? m (m.skip cs)).bind fun (high, rest) =>
    match high with
    | .char c _ =>
      if low.toNat ≤ c.toNat && m.admitsMember low && m.admitsMember c then some rest else none
    | _ => none

def memberOrRange? (m : Mode) (cs : List Char) : Option (List Char) :=
  (member? m cs).bind fun (first, rest) =>
    let single := if m.admitsEscape first then some rest else none
    match m.skip rest with
    | '-' :: more =>
      if afterHyphen? m more = some ']' || afterHyphen? m more = some '-' then single
      else
        match first with
        | .char low _ => rangeEnd? m low more
        | _ => none
    | _ => single

def classNames : List String :=
  ["alnum", "alpha", "ascii", "blank", "cntrl", "digit", "graph", "lower", "print", "punct",
   "space", "upper", "word", "xdigit"]

def namedClass? : List Char → Option (Bool × List Char)
  | ':' :: cs =>
    let isNegated := cs.head? = some '^'
    let cs := if isNegated then cs.tail else cs
    match cs.dropWhile (· ≠ ':') with
    | ':' :: ']' :: rest =>
      if classNames.contains (String.ofList (cs.takeWhile (· ≠ ':'))) then some (isNegated, rest)
      else none
    | _ => none
  | _ => none

def leadingHyphens (m : Mode) : Nat → Bracket → List Char → Bracket × List Char
  | 0, b, cs => (b, cs)
  | fuel + 1, b, cs =>
    match m.skip cs with
    | '-' :: rest => leadingHyphens m fuel (b.add 0) rest
    | cs => (b, cs)

/-- Read the start of a class from after its bracket. Hyphens and, if there are none, a closing
bracket are members here. -/
def openBracket? (m : Mode) (cs : List Char) : Option (Bracket × List Char) :=
  let cs := m.skip cs
  let isNegated := cs.head? = some '^'
  let cs := if isNegated then cs.tail else cs
  let (b, cs) := leadingHyphens m cs.length { isNegated } cs
  let (b, cs) := match b.members, cs with
    | [], ']' :: rest => (b.add 0, rest)
    | _, cs => (b, cs)
  if b.members.isEmpty || m.admitsMember '-' then some (b, cs) else none

/-- Read on in a class that stands in others: the height of the outermost one, and the rest. Every
turn takes a character, so that the length of the text is fuel enough. -/
def bracket? (m : Mode) : Nat → Bracket → List Bracket → List Char → Option (Nat × List Char)
  | 0, _, _, _ => none
  | fuel + 1, b, outer, cs =>
    match m.skip cs with
    | [] => none
    | '[' :: rest =>
      match namedClass? rest with
      | some (isNegated, rest) =>
        if m.admitsNamed isNegated then bracket? m fuel (b.add 0) outer rest else none
      | none => (openBracket? m rest).bind fun (new, rest) => bracket? m fuel new (b :: outer) rest
    | ']' :: rest =>
      if b.isNegated && !m.admitsComplement then none
      else
        match outer with
        | [] => some (b.height, rest)
        | around :: outer => bracket? m fuel (around.add b.height) outer rest
    | '&' :: '&' :: rest => bracket? m fuel b.split outer rest
    | '-' :: '-' :: rest => bracket? m fuel b.split outer rest
    | '~' :: '~' :: rest => bracket? m fuel b.split outer rest
    | cs => (memberOrRange? m cs).bind fun rest => bracket? m fuel (b.add 0) outer rest

def charClass? (m : Mode) (cs : List Char) : Option (Nat × List Char) :=
  (openBracket? m cs).bind fun (b, rest) => bracket? m (cs.length + 1) b [] rest

end Pattern

end WeakRefs
