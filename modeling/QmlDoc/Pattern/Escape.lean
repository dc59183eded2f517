import QmlDoc.Pattern.Source
import QmlDoc.Text.CharName
import QmlDoc.Text.Basic

set_option autoImplicit false

namespace QmlDoc.Pattern

def controlEscape : Char → Option Char
  | 'a' => some '\x07'
  | 'b' => some '\x08'
  | 'f' => some '\x0c'
  | 'n' => some '\n'
  | 'r' => some '\r'
  | 't' => some '\t'
  | 'v' => some '\x0b'
  | '\\' => some '\\'
  | _ => none

def classEscape (ascii : Bool) : Char → Option CharTest
  | 'd' => some (.ofClass .digit ascii false)
  | 'D' => some (.ofClass .digit ascii true)
  | 's' => some (.ofClass .blank ascii false)
  | 'S' => some (.ofClass .blank ascii true)
  | 'w' => some (.ofClass .word ascii false)
  | 'W' => some (.ofClass .word ascii true)
  | _ => none

def edgeEscape (ascii : Bool) : Char → Option Edge
  | 'A' => some .textStart
  | 'Z' => some .textEnd
  | 'b' => some (.wordEdge ascii false)
  | 'B' => some (.wordEdge ascii true)
  | _ => none

def escapeText (chars : List Char) : String :=
  String.ofList ('\\' :: chars)

def hexEscape (start : Nat) (c : Char) (count : Nat) : Parsing Nat := do
  let digits ← Parsing.upTo count Text.isHexDigit
  let code := Text.ofDigits 16 digits
  if digits.length < count then
    Parsing.fail (.incompleteEscape (escapeText (c :: digits))) start
  else if 0x10ffff < code then
    Parsing.fail (.badEscape (escapeText (c :: digits))) start
  else
    pure code

def namedEscape (start : Nat) : Parsing Nat := do
  if ← Parsing.accept '\x7b' then
    let name ← Parsing.nameUntil '\x7d' "character name"
    match Text.charNamed? name with
    | some code => pure code
    | none => Parsing.fail (.unknownCharName (String.ofList name)) start
  else
    Parsing.failBefore (.missing "\x7b") 0

/-- A code point by its octal digits. Three of them can reach beyond a byte. -/
def octalCode (start : Nat) (digits : List Char) : Parsing Nat :=
  let code := Text.ofDigits 8 digits
  if 0o377 < code then Parsing.fail (.octalTooLarge (escapeText digits)) start
  else pure code

/-- The code points that have the same escape inside and outside a set. -/
def codeEscape (start : Nat) (c : Char) : Parsing Nat := do
  match c with
  | 'x' => hexEscape start c 2
  | 'u' => hexEscape start c 4
  | 'U' => hexEscape start c 8
  | 'N' => namedEscape start
  | _ =>
      if c.isAlphanum then Parsing.fail (.badEscape (escapeText [c])) start
      else pure c.toNat

/-- Inside a look behind only groups that were closed before it can be used. -/
def checkLookedAt (number : Nat) : Parsing Unit := do
  let source ← get
  match source.lookedAt with
  | none => pure ()
  | some first =>
      if (source.groupWidth? number).isNone then Parsing.failBefore .groupNotClosed 0
      else if first ≤ number then Parsing.failBefore .groupLookedAt 0
      else pure ()

def charOf (code : Nat) : Parsing Pattern := do
  return oneOf (← get).flags.caseRule false [.exactly code]

/-- A group whose text can be matched again is closed. The fault is `back` characters
before the place. -/
def checkAgain (number back : Nat) : Parsing Unit := do
  if ((← get).groupWidth? number).isNone then Parsing.failBefore .groupNotClosed back
  else checkLookedAt number

/-- The digits of an escape that starts with the digit `c`, not zero: three octal ones, or
one or two decimal ones. -/
def escapeDigits (c : Char) : Parsing (List Char) := do
  let second ← Parsing.upTo 1 Char.isDigit
  let third ←
    if !second.isEmpty && (c :: second).all Text.isOctalDigit then
      Parsing.upTo 1 Text.isOctalDigit
    else pure []
  pure (c :: second ++ third)

/-- An escape that starts with the digit `c`, not zero: three octal digits are a code
point, and anything else is the number of a group. -/
def digitEscape (start : Nat) (c : Char) : Parsing Pattern := do
  let digits ← escapeDigits c
  let number := Text.ofDigits 10 digits
  if digits.length = 3 then
    charOf (← octalCode start digits)
  else if (← get).nextGroup ≤ number then
    Parsing.fail (.unknownGroup number) (start + 1)
  else
    checkAgain number (digits.length + 1)
    return again (← get).flags.caseRule number

/-- What a backslash and `c` mean outside a set. The backslash is at `start`. -/
def escapePattern (start : Nat) (c : Char) : Parsing Pattern := do
  let flags := (← get).flags
  match edgeEscape flags.asciiOnly c, classEscape flags.asciiOnly c, controlEscape c with
  | some e, _, _ => pure (edge e)
  | none, some test, _ => pure (oneOf flags.caseRule false [test])
  | none, none, some d => charOf d.toNat
  | none, none, none =>
      if c = '0' then
        charOf (Text.ofDigits 8 (← Parsing.upTo 2 Text.isOctalDigit))
      else if c.isDigit then
        digitEscape start c
      else
        charOf (← codeEscape start c)

def escapeTest (start : Nat) (c : Char) : Parsing CharTest := do
  match classEscape (← get).flags.asciiOnly c, controlEscape c with
  | some test, _ => pure test
  | none, some d => pure (.exactly d.toNat)
  | none, none =>
      if Text.isOctalDigit c then
        let more ← Parsing.upTo 2 Text.isOctalDigit
        return .exactly (← octalCode start (c :: more))
      else
        return .exactly (← codeEscape start c)

end QmlDoc.Pattern
