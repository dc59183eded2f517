import QmlDoc.Pattern.Basic
import QmlDoc.Pattern.Error

set_option autoImplicit false

namespace QmlDoc.Pattern

inductive Flag
  /-- Capital and small letters are equal. -/
  | anyCase
  | locale
  /-- Every line has a start and an end. -/
  | lines
  /-- A newline is any character too. -/
  | dotAll
  /-- Blanks and comments are passed over. -/
  | verbose
  | ascii
  /-- No part of the pattern may be repeated. -/
  | once
  | unicode
  deriving DecidableEq, Repr

namespace Flag

def ofChar? : Char → Option Flag
  | 'i' => some anyCase
  | 'L' => some locale
  | 'm' => some lines
  | 's' => some dotAll
  | 'x' => some verbose
  | 'a' => some ascii
  | 't' => some once
  | 'u' => some unicode
  | _ => none

/-- The flags that say which scripts the classes of characters know. -/
def isScript : Flag → Bool
  | ascii | locale | unicode => true
  | _ => false

end Flag

abbrev Flags := List Flag

namespace Flags

/-- The flags inside a group. Of the flags on scripts the last one holds. -/
def within (outer on off : Flags) : Flags :=
  let kept := if on.any Flag.isScript then outer.filter (!·.isScript) else outer
  (kept ++ on).filter (!off.contains ·)

def asciiOnly (flags : Flags) : Bool :=
  flags.contains .ascii

def caseRule (flags : Flags) : CaseRule :=
  if !flags.contains .anyCase then .exact
  else if flags.asciiOnly then .ascii
  else .every

end Flags

/-- The text from some place on, and what is known there. The widths are those of the
groups in order, once they are closed. `lookedAt` is the first group of the look behind
that is being read, and `conditions` are the groups on which a choice depends, with the
positions that name them. -/
structure Source where
  rest : List Char
  pos : Nat
  flags : Flags
  widths : List (Option Width)
  names : List (String × Nat)
  lookedAt : Option Nat
  conditions : List (Nat × Nat)

namespace Source

def ofText (text : List Char) : Source :=
  ⟨text, 0, [], [], [], none, []⟩

def nextGroup (source : Source) : Nat :=
  source.widths.length + 1

def groupWidth? (source : Source) : Nat → Option Width
  | 0 => none
  | number + 1 => (source.widths[number]?).join

def groupWidth (source : Source) (number : Nat) : Width :=
  (source.groupWidth? number).getD .zero

end Source

abbrev Parsing (α : Type) : Type :=
  StateT Source (Except Error) α

/-- A character, or a backslash with the character behind it. -/
inductive Symbol
  | plain (c : Char)
  | escaped (c : Char)
  deriving DecidableEq, Repr

def Symbol.text : Symbol → List Char
  | plain c => [c]
  | escaped c => ['\\', c]

def Flag.ofSymbol? : Symbol → Option Flag
  | .plain c => ofChar? c
  | .escaped _ => none

namespace Parsing

def fail {α : Type} (fault : Fault) (pos : Nat) : Parsing α :=
  throw ⟨fault, some pos⟩

def place : Parsing Nat := do
  return (← get).pos

/-- A fault so many characters before the place. -/
def failBefore {α : Type} (fault : Fault) (count : Nat) : Parsing α := do
  fail fault ((← place) - count)

/-- A backslash that ends the text is noticed as soon as it is the next to be read. -/
def checkEscape : Parsing Unit := do
  let source ← get
  if source.rest = ['\\'] then fail .endInEscape source.pos else pure ()

def advance (count : Nat) : Parsing Unit := do
  modify fun source =>
    { source with rest := source.rest.drop count, pos := source.pos + count }
  checkEscape

def peek : Parsing (Option Char) := do
  return (← get).rest.head?

def symbol : Parsing (Option Symbol) := do
  match (← get).rest with
  | '\\' :: c :: _ =>
      advance 2
      pure (some (.escaped c))
  | c :: _ =>
      advance 1
      pure (some (.plain c))
  | [] => pure none

/-- Passes the character `c` if it comes next, and tells whether it did. -/
def accept (c : Char) : Parsing Bool := do
  if (← peek) = some c then
    advance 1
    pure true
  else
    pure false

def upTo (most : Nat) (test : Char → Bool) : Parsing (List Char) := do
  let found := ((← get).rest.take most).takeWhile test
  advance found.length
  pure found

def nameFrom (closing : Char) (what : String) : Nat → List Char → Parsing (List Char)
  | 0, name => pure name
  | n + 1, name => do
      match ← symbol with
      | none =>
          if name.isEmpty then failBefore (.missing what) 0
          else failBefore (.openName closing) name.length
      | some s =>
          if s ≠ .plain closing then nameFrom closing what n (name ++ s.text)
          else if name.isEmpty then failBefore (.missing what) 1
          else pure name

/-- A name up to the character that closes it, which is passed. -/
def nameUntil (closing : Char) (what : String) : Parsing (List Char) := do
  nameFrom closing what ((← get).rest.length + 1) []

end Parsing

end QmlDoc.Pattern
