import QmlDoc.Text.Basic
import QmlDoc.Text.Case
import QmlDoc.Text.Word

set_option autoImplicit false

namespace QmlDoc

namespace Pattern

inductive CharClass
  | word
  | digit
  | blank
  deriving DecidableEq, Repr

/-- With `ascii` a class has no members beyond ASCII, and of the controls only tabs and
the ends of lines and pages are blank. -/
def CharClass.holds (ascii : Bool) (cls : CharClass) (c : Char) : Bool :=
  match cls with
  | word => Text.isWord c && !(ascii && 0x80 ≤ c.toNat)
  | digit => Text.isDecimal c && !(ascii && 0x80 ≤ c.toNat)
  | blank => if ascii then c = ' ' || ('\t' ≤ c && c ≤ '\r') else Text.isBlank c

/-- Which letters count as equal: none but the same, capital and small letters of ASCII,
or those of every script. -/
inductive CaseRule
  | exact
  | ascii
  | every
  deriving DecidableEq, Repr

def CaseRule.lower : CaseRule → Nat → Nat
  | exact, code => code
  | ascii, code => Text.asciiLower code
  | every, code => Text.lower code

def CaseRule.variants : CaseRule → Nat → List Nat
  | exact, code => [code]
  | ascii, code => Text.asciiVariants code
  | every, code => Text.caseVariants code

/-- A condition on one character. Code points need not be those of characters. -/
inductive CharTest
  | exactly (code : Nat)
  /-- The small letter is the one given. -/
  | small (code : Nat)
  | between (first last : Nat)
  | ofClass (cls : CharClass) (ascii negated : Bool)
  deriving DecidableEq, Repr

/-- Where case is ignored, a range that reaches beyond the basic plane also has the letters
whose capitals it has. -/
def CharTest.holds (rule : CaseRule) (test : CharTest) (c : Char) : Bool :=
  match test with
  | exactly code => (rule.variants c.toNat).contains code
  | small code => rule.lower c.toNat = code
  | between first last =>
      let inside (d : Nat) : Bool := first ≤ d && d ≤ last
      (rule.variants c.toNat).any inside ||
        (rule ≠ .exact && 0xffff < last && inside (Text.upper (rule.lower c.toNat)))
  | ofClass cls ascii negated => cls.holds ascii c != negated

/-- How many rounds of a repetition are tried first. A possessive repetition takes as
many rounds as it can and gives none back. -/
inductive Preference
  | greedy
  | lazy
  | possessive
  deriving DecidableEq, Repr

/-- A condition on a place between characters. -/
inductive Edge
  | textStart
  | lineStart
  /-- The end of the text, or the place before a newline that ends it. -/
  | lastLineEnd
  | lineEnd
  | textEnd
  | wordEdge (ascii negated : Bool)
  deriving DecidableEq, Repr

/-- The least and the greatest number of characters that a pattern matches. -/
structure Width where
  least : Nat
  most : Nat
  deriving DecidableEq, Repr

end Pattern

inductive Pattern
  | empty
  /-- Any character, except perhaps a newline. -/
  | anyChar (newline : Bool)
  /-- A character for which one of the tests holds, or with `negated` none. -/
  | oneOf (rule : Pattern.CaseRule) (negated : Bool) (tests : List Pattern.CharTest)
  | edge (edge : Pattern.Edge)
  | seq (first second : Pattern)
  | alt (first second : Pattern)
  /-- Without `most` there is no upper bound. -/
  | rep (preference : Pattern.Preference) (least : Nat) (most : Option Nat) (body : Pattern)
  /-- A group with a number remembers the text that it matched. -/
  | group (number : Option Nat) (body : Pattern)
  /-- The text that a group has matched. -/
  | again (rule : Pattern.CaseRule) (number : Nat)
  /-- The choice depends on whether a group has matched. -/
  | given (number : Nat) (yes no : Pattern)
  /-- Only the first way to match counts. -/
  | atomic (body : Pattern)
  /-- Whether the body matches from here on, without going forward. With a width it is
  tried from so many characters before. -/
  | look (behind : Option Pattern.Width) (negated : Bool) (body : Pattern)
  deriving Repr

namespace Pattern

def seqAll : List Pattern → Pattern
  | [] => empty
  | [p] => p
  | p :: later => seq p (seqAll later)

def altAll : List Pattern → Pattern
  | [] => empty
  | [p] => p
  | p :: later => alt p (altAll later)

end Pattern

end QmlDoc

namespace QmlDoc.Pattern

namespace Width

/-- No width is counted beyond this one. -/
def limit : Nat := 18446744073709551616

def capped (least most : Nat) : Width :=
  ⟨min least limit, min most limit⟩

def zero : Width := ⟨0, 0⟩

def add (a b : Width) : Width :=
  capped (a.least + b.least) (a.most + b.most)

def either (a b : Width) : Width :=
  ⟨min a.least b.least, max a.most b.most⟩

def repeated (width : Width) (least : Nat) (most : Option Nat) : Width :=
  match most with
  | some most => capped (width.least * least) (width.most * most)
  | none => capped (width.least * least) (if width.most = 0 then 0 else limit)

end Width

/-- The width of a pattern, given those of the groups. -/
def width (groups : Nat → Width) : Pattern → Width
  | empty | edge _ | look _ _ _ => .zero
  | anyChar _ | oneOf _ _ _ => ⟨1, 1⟩
  | seq first second => (first.width groups).add (second.width groups)
  | alt first second => (first.width groups).either (second.width groups)
  | rep _ least most body => (body.width groups).repeated least most
  | group _ body | atomic body => body.width groups
  | again _ number => groups number
  | given _ yes no => (yes.width groups).either (no.width groups)

end QmlDoc.Pattern
