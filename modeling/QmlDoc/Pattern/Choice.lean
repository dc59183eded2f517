import QmlDoc.Pattern.Escape

set_option autoImplicit false

namespace QmlDoc.Pattern

def setTest (start : Nat) : Symbol → Parsing CharTest
  | .plain c => pure (.exactly c.toNat)
  | .escaped c => escapeTest start c

def setRange (first last : Symbol) (low high : CharTest) : Parsing CharTest :=
  let bad : Parsing CharTest :=
    Parsing.failBefore (.badRange (String.ofList first.text) (String.ofList last.text))
      (first.text.length + 1 + last.text.length)
  match low, high with
  | .exactly c, .exactly d => if d < c then bad else pure (.between c d)
  | _, _ => bad

/-- The tests of a set whose bracket is at `start`, up to the closing bracket. A
closing bracket that comes first stands for itself. -/
def setFrom (start : Nat) : Nat → List CharTest → Parsing (List CharTest)
  | 0, _ => Parsing.fail .openSet start
  | n + 1, tests => do
      let here ← Parsing.place
      match ← Parsing.symbol with
      | none => Parsing.fail .openSet start
      | some first =>
          if first = .plain ']' && !tests.isEmpty then
            pure tests
          else
            let low ← setTest here first
            if ← Parsing.accept '-' then
              let there ← Parsing.place
              match ← Parsing.symbol with
              | none => Parsing.fail .openSet start
              | some (.plain ']') => pure (tests ++ [low, .exactly '-'.toNat])
              | some last =>
                  let high ← setTest there last
                  setFrom start n (tests ++ [← setRange first last low high])
            else
              setFrom start n (tests ++ [low])

/-- In a set of several tests a letter beyond the basic plane is compared with the small
letter. -/
def smallBeyondPlane : CharTest → CharTest
  | .exactly code => if 0xffff < code then .small code else .exactly code
  | test => test

def charSet (rule : CaseRule) (negated : Bool) (tests : List CharTest) : Pattern :=
  let different := tests.eraseDups
  if rule = .every && 1 < different.length then
    oneOf rule negated (different.map smallBeyondPlane)
  else
    oneOf rule negated different

def readSet (start : Nat) : Parsing Pattern := do
  let negated ← Parsing.accept '^'
  let source ← get
  let tests ← setFrom start (source.rest.length + 1) []
  pure (charSet source.flags.caseRule negated tests)

/-- Whether two parts are the same and have no parts of their own. -/
def sameLeaf : Pattern → Pattern → Bool
  | anyChar newline, anyChar newline' => newline = newline'
  | oneOf rule negated tests, oneOf rule' negated' tests' =>
      rule = rule' && negated = negated' && tests = tests'
  | edge e, edge e' => e = e'
  | again rule number, again rule' number' => rule = rule' && number = number'
  | _, _ => false

/-- The parts that the sequence and all others start with, and what is left of them. -/
def splitCommon : List Pattern → List (List Pattern) → List Pattern × List (List Pattern)
  | [], others => ([], [] :: others)
  | p :: rest, others =>
      if others.all fun other => other.head?.any (sameLeaf p) then
        let (common, rests) := splitCommon rest (others.map List.tail)
        (p :: common, rests)
      else
        ([], (p :: rest) :: others)

def setTests? : List Pattern → Option (List CharTest)
  | [oneOf _ false tests] => some tests
  | _ => none

/-- One of several sequences, as a sequence. What all of them start with is matched once,
and if single characters are left, these make one set. -/
def choose : List (List Pattern) → Parsing (List Pattern)
  | [] => pure []
  | [only] => pure only
  | first :: others => do
      let rule := (← get).flags.caseRule
      let (common, rests) := splitCommon first others
      match rests.mapM setTests? with
      | some tests => pure (common ++ [charSet rule false tests.flatten])
      | none => pure (common ++ [altAll (rests.map seqAll)])

end QmlDoc.Pattern
