import WeakRefs.Text.Blank

/-!
# Modes of patterns

A pattern is read under a mode, which flags in it change. As no tables of Unicode classes or of
pairs of letters stand behind patterns, and as they match text only, the mode also decides what a
pattern may ask for.
-/

namespace WeakRefs

namespace Pattern

inductive Flag where
  | caseless
  | multiline
  | dotMatchesAll
  | swapGreed
  | unicode
  | windowsLines
  | spaced
  deriving DecidableEq

def Flag.ofLetter? : Char → Option Flag
  | 'i' => some .caseless
  | 'm' => some .multiline
  | 's' => some .dotMatchesAll
  | 'U' => some .swapGreed
  | 'u' => some .unicode
  | 'R' => some .windowsLines
  | 'x' => some .spaced
  | _ => none

structure Mode where
  caseless : Bool := false
  unicode : Bool := true
  spaced : Bool := false
  deriving DecidableEq

namespace Mode

def set (m : Mode) (flag : Flag) (isOn : Bool) : Mode :=
  match flag with
  | .caseless => { m with caseless := isOn }
  | .unicode => { m with unicode := isOn }
  | .spaced => { m with spaced := isOn }
  | .multiline | .dotMatchesAll | .swapGreed | .windowsLines => m

/-- Leave out blanks and comments at the start; a comment begins with a number sign and ends with
its line. -/
def dropSpacing (inComment : Bool) : List Char → List Char
  | [] => []
  | c :: cs =>
    if inComment then dropSpacing (c ≠ '\n') cs
    else if Blank.isBlank c then dropSpacing false cs
    else if c = '#' then dropSpacing true cs
    else c :: cs

def skip (m : Mode) (cs : List Char) : List Char := if m.spaced then dropSpacing false cs else cs

def admitsChar (m : Mode) (c : Char) (isByte : Bool) : Bool :=
  if m.unicode then !m.caseless else !isByte || c.toNat < 0x80

def admitsMember (m : Mode) (c : Char) : Bool := if m.unicode then !m.caseless else c.toNat < 0x80

def admitsClass (m : Mode) (isNegated : Bool) : Bool := !m.unicode && !isNegated

def admitsNamed (m : Mode) (isNegated : Bool) : Bool :=
  if m.unicode then !m.caseless else !isNegated

def admitsComplement (m : Mode) : Bool := m.unicode

def admitsAny (m : Mode) : Bool := m.unicode

def admitsWordEdge (m : Mode) : Bool := !m.unicode

end Mode

/-- Read flags up to the colon that opens a group, or up to the parenthesis that closes a setting of
flags: the new mode, whether a group follows, and the rest. -/
def flags? (m : Mode) (seen : List Flag) (isNegated isDangling : Bool) :
    List Char → Option (Mode × Bool × List Char)
  | [] => none
  | ':' :: rest => if isDangling then none else some (m, true, rest)
  | ')' :: rest => if isDangling || seen.isEmpty then none else some (m, false, rest)
  | '-' :: rest => if isNegated then none else flags? m seen true true rest
  | c :: rest =>
    match Flag.ofLetter? c with
    | none => none
    | some flag =>
      if seen.contains flag then none
      else flags? (m.set flag !isNegated) (flag :: seen) isNegated false rest

end Pattern

end WeakRefs
