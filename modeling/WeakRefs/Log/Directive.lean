import WeakRefs.Event
import WeakRefs.Log.FieldMatch
import WeakRefs.Text.Cut

/-!
# Filter directives

A directive is a threshold alone, or a scope, a bracket with a span and a field, and a threshold
after an equals sign, of which parts may be missing. Blanks at the ends are no part of this form,
but the parts are cut by their positions from the text with its blanks.
-/

namespace WeakRefs

structure LogDirective where
  scope : Option String := none
  field : Option String := none
  /-- Whether the directive is about spans, so that it decides about no event. -/
  spansOnly : Bool := false
  /-- The most verbose level admitted, as a number; zero admits nothing. -/
  verbosity : Nat
  deriving DecidableEq

namespace LogDirective

/-! ## Meaning -/

def covers (d : LogDirective) (e : Event) : Bool :=
  !d.spansOnly
    && d.scope.all (fun scope => scope.toList.isPrefixOf e.target.toList)
    && d.field.all e.names.contains

/-- How much a scope says: more bytes say more, and even an empty scope says more than none. -/
def scopeWeight (d : LogDirective) : Nat :=
  (d.scope.map fun scope => scope.utf8ByteSize + 1).getD 0

/-- Whether `a` says less than `b`: by the scope, then by having a field, then by its name. Where
both cover one event, scopes of one weight are one scope. -/
def isLessSpecific (a b : LogDirective) : Bool :=
  if a.scopeWeight = b.scopeWeight then
    match a.field, b.field with
    | none, some _ => true
    | some x, some y => x < y
    | _, none => false
  else a.scopeWeight < b.scopeWeight

/-! ## Reading -/

def number? (digits : List Char) : Option Nat :=
  if !digits.isEmpty && digits.all Char.isDigit then
    some (digits.foldl (fun n d => 10 * n + (d.toNat - '0'.toNat)) 0)
  else none

def threshold? (word : List Char) : Option Nat :=
  let numeral :=
    match word with
    | '+' :: digits => number? digits
    | digits => number? digits
  match numeral with
  | some n => if n ≤ Level.trace.verbosity then some n else none
  | none =>
    let word := String.ofList word
    if word.toLower = "off" then some 0 else (Level.ofWord? word).map Level.verbosity

def thresholdAfter? (word : List Char) : Option Nat :=
  if word.isEmpty then some Level.trace.verbosity else threshold? word

structure Parts where
  scope : Option Extent := none
  isNamed : Bool := false
  field : Option Extent := none
  threshold : Option Nat := none
  deriving DecidableEq

inductive Shape where
  | word
  | parts (p : Parts)
  deriving DecidableEq

def afterBracket? (position : Nat) : List Char → Option (Option Nat)
  | [] => some none
  | '=' :: _ => some (some (position + 1))
  | _ => none

/-- Read a bracket from after its opening, at a position: the name of a span, which may be missing,
and then possibly one field in braces. -/
def bracket? (scope : Option Extent) (position : Nat) (cs : List Char) : Option Parts :=
  let span := cs.takeWhile fun c => c ≠ ']' && c ≠ '\x7b'
  let position := position + byteLength span + 1
  match cs.dropWhile fun c => c ≠ ']' && c ≠ '\x7b' with
  | ']' :: rest =>
    (afterBracket? position rest).map fun threshold => { scope, isNamed := true, threshold }
  | _ :: inner =>
    let field := inner.takeWhile (· ≠ '\x7d')
    let stop := position + byteLength field
    match inner.dropWhile (· ≠ '\x7d') with
    | _ :: ']' :: rest =>
      if field.isEmpty then none
      else
        (afterBracket? (stop + 2) rest).map fun threshold =>
          { scope, isNamed := !span.isEmpty, field := some ⟨position, stop⟩, threshold }
    | _ => none
  | [] => none

def isOpening (c : Char) : Bool := isAlphanumeric c || c = '-' || c = ':' || c = '_'

def shape? : List Char → Option Shape
  | '[' :: rest => (bracket? none 1 rest).map .parts
  | c :: rest =>
    if isOpening c then
      let size := byteLength (c :: rest.takeWhile fun c => c ≠ '=' && c ≠ '[')
      let scope := some ⟨0, size⟩
      match rest.dropWhile fun c => c ≠ '=' && c ≠ '[' with
      | [] => some .word
      | '=' :: _ => some (.parts { scope, threshold := some (size + 1) })
      | _ :: rest => (bracket? scope (size + 1) rest).map .parts
    else none
  | [] => none

def ofParts? (p : Parts) (cs : List Char) : Option LogDirective := do
  let scope ← p.scope.mapM (·.cut? cs)
  let field ← p.field.mapM fun e => (e.cut? cs).bind FieldMatch.ofChars?
  let threshold ← p.threshold.mapM fun start => (dropBytes? start cs).bind thresholdAfter?
  return {
    scope := scope.map String.ofList
    field := field.map FieldMatch.name
    spansOnly := p.isNamed || field.any FieldMatch.asksValue
    verbosity := threshold.getD Level.trace.verbosity }

def ofText? (text : String) : Option LogDirective :=
  let cs := text.toList
  match shape? (Blank.dropTrailing (Blank.dropLeading cs)) with
  | none => none
  | some .word =>
    match threshold? cs with
    | some verbosity => some { verbosity }
    | none => some { scope := some text, verbosity := Level.trace.verbosity }
  | some (.parts p) => ofParts? p cs

end LogDirective

end WeakRefs
