import QmlDoc.Pattern.Basic
import QmlDoc.Pattern.Grammar
import QmlDoc.Pattern.Matching

set_option autoImplicit false

namespace QmlDoc.Pattern

def CaseRule.isCased : CaseRule → Nat → Bool
  | exact, _ => false
  | ascii, code => 1 < (Text.asciiVariants code).length
  | every, code => Text.lower code ≠ code || Text.upper code ≠ code

/-- Whether a test has letters that it might have in another case. -/
def CharTest.isCased (rule : CaseRule) : CharTest → Bool
  | exactly code | small code => rule.isCased code
  | between first last =>
      rule ≠ .exact &&
        (0xffff < last || (List.range' first (last + 1 - first)).any rule.isCased)
  | ofClass _ _ _ => false

/-- The test with its class taken in ASCII or in every script. -/
def CharTest.inScript (ascii : Bool) : CharTest → CharTest
  | ofClass cls _ negated => ofClass cls ascii negated
  | test => test

/-- Whether a match may start with the character. A set tells nothing if it has letters that
might come in another case. -/
def mayStart (ascii : Bool) : Pattern → Char → Bool
  | oneOf rule negated tests, c =>
      let given := tests.map (CharTest.inScript ascii)
      given = tests || tests.any (CharTest.isCased rule) ||
        given.any (·.holds .exact c) != negated
  | seq first _, c => mayStart ascii first c
  | group _ body, c => mayStart ascii body c
  | _, _ => true

inductive TemplatePart
  | text (chars : List Char)
  | groupText (number : Nat)
  deriving DecidableEq, Repr

abbrev Template := List TemplatePart

def TemplatePart.isText : TemplatePart → Bool
  | text _ => true
  | groupText _ => false

/-- The text of a template for a match that ends at `stop`. A group that took no part has
the empty text. If groups are referred to, all of them have to be in order. -/
def Template.expand (template : Template) (groups : Nat) (stop : Spot) :
    Except Error (List Char) :=
  let wrong (group : Nat) : Bool := (stop.span? group).any fun (start, stop) => stop < start
  if !template.all TemplatePart.isText && (List.range (groups + 1)).any wrong then
    throw ⟨.wrongSpan, none⟩
  else
    pure (template.flatMap fun
      | .text chars => chars
      | .groupText number => (stop.groupText? number).getD [])

/-- A reference to one of `groups` groups, `back` characters before the place; group zero
is the whole match. -/
def groupPart (groups number back : Nat) : Parsing TemplatePart :=
  if groups < number then Parsing.failBefore (.unknownGroup number) back
  else pure (.groupText number)

/-- A reference to a group by its name or number in angle brackets. -/
def bracketedGroup (parsed : Parsed) : Parsing TemplatePart := do
  if ← Parsing.accept '<' then
    let name ← Parsing.nameUntil '>' "group name"
    let text := String.ofList name
    if Text.isIdentifier name then
      match parsed.names.lookup text with
      | some number => pure (.groupText number)
      | none => throw ⟨.unknownGroupName text, none⟩
    else
      match Text.natural? name with
      | some number => groupPart parsed.groups number (name.length + 1)
      | none => Parsing.failBefore (.badGroupName text) (name.length + 1)
  else
    Parsing.failBefore (.missing "<") 0

/-- An escape that starts with the digit `c`, not zero: three octal digits are a code
point, and anything else is the number of a group. -/
def templateDigits (groups start : Nat) (c : Char) : Parsing TemplatePart := do
  let digits ← escapeDigits c
  if digits.length = 3 then return .text [Char.ofNat (← octalCode start digits)]
  else groupPart groups (Text.ofDigits 10 digits) digits.length

/-- What a backslash and `c` mean in a template. An escape that means nothing stands
for itself, unless `c` is a letter. -/
def templateEscape (parsed : Parsed) (start : Nat) (c : Char) : Parsing TemplatePart := do
  if c = 'g' then
    bracketedGroup parsed
  else if c = '0' then
    let digits ← Parsing.upTo 2 Text.isOctalDigit
    pure (.text [Char.ofNat (Text.ofDigits 8 digits)])
  else if c.isDigit then
    templateDigits parsed.groups start c
  else
    match controlEscape c with
    | some d => pure (.text [d])
    | none =>
        if c.isAlpha then Parsing.fail (.badEscape (escapeText [c])) start
        else pure (.text ['\\', c])

def templateFrom (parsed : Parsed) : Nat → Parsing Template
  | 0 => pure []
  | n + 1 => do
      let start ← Parsing.place
      match ← Parsing.symbol with
      | none => pure []
      | some (.plain c) => return .text [c] :: (← templateFrom parsed n)
      | some (.escaped c) =>
          let part ← templateEscape parsed start c
          return part :: (← templateFrom parsed n)

def parseTemplate (parsed : Parsed) (text : List Char) : Except Error Template := do
  let read : Parsing Template := do
    Parsing.checkEscape
    templateFrom parsed (text.length + 1)
  let (template, _) ← read.run (.ofText text)
  pure template

/-- The end of a match at a place, in which group zero is the whole match. With `blocked`
only a match that goes forward counts. -/
def matchAt (parsed : Parsed) (blocked : Bool) (spot : Spot) : Option Spot :=
  let start := { spot with marks := [] }
  let goal (stop : Spot) : Outcome :=
    if blocked && stop.pos = spot.pos then .error stop.marks else .ok (stop.leave 0)
  if spot.rest.head?.all (mayStart parsed.ascii parsed.pattern) then
    (parsed.pattern.run false (start.enter 0) goal).toOption
  else none

/-- Goes through the text from left to right. A match at a place is replaced, and the
search goes on behind it; behind an empty match a further one has to go forward. -/
def replaceFrom (parsed : Parsed) (template : Template) :
    Nat → Bool → Spot → Except Error (List Char)
  | 0, _, spot => pure spot.rest
  | n + 1, blocked, spot =>
      match matchAt parsed blocked spot with
      | some stop => do
          let text ← template.expand parsed.groups stop
          return text ++ (← replaceFrom parsed template n (stop.pos = spot.pos) stop)
      | none =>
          match spot.rest with
          | [] => pure []
          | c :: _ => return c :: (← replaceFrom parsed template n false (spot.forward 1))

/-- Replaces every match of the pattern written as `pattern`. At every place there are
at most an empty match and one step forward. -/
def replace (pattern template text : String) : Except Error String := do
  let parsed ← parse pattern.toList
  let parts ← parseTemplate parsed template.toList
  let bound := 2 * text.length + 2
  return String.ofList (← replaceFrom parsed parts bound false (.ofText text.toList))

end QmlDoc.Pattern
