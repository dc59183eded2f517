import QmlDoc.Pattern.Basic

set_option autoImplicit false

namespace QmlDoc.Pattern

/-- The places where groups were entered and left, the latest first. Group `n` is entered
at mark `2 * n` and left at mark `2 * n + 1`. -/
abbrev Marks := List (Nat × Nat)

def Marks.highest (marks : Marks) : Nat :=
  marks.foldl (fun most entry => max most entry.1) 0

/-- A place in a text, with the marks set on the way to it. The characters before the place
are in reverse order. -/
structure Spot where
  before : List Char
  rest : List Char
  marks : Marks
  deriving DecidableEq, Repr

namespace Spot

def ofText (text : List Char) : Spot :=
  ⟨[], text, []⟩

def pos (spot : Spot) : Nat :=
  spot.before.length

def slice (spot : Spot) (start stop : Nat) : List Char :=
  ((spot.before.reverse ++ spot.rest).drop start).take (stop - start)

def forward (spot : Spot) (count : Nat) : Spot :=
  { spot with
    before := (spot.rest.take count).reverse ++ spot.before
    rest := spot.rest.drop count }

/-- Goes back, if there are enough characters before. -/
def back? (spot : Spot) (count : Nat) : Option Spot :=
  if spot.pos < count then none
  else
    some { spot with
      before := spot.before.drop count
      rest := (spot.before.take count).reverse ++ spot.rest }

def enter (spot : Spot) (group : Nat) : Spot :=
  { spot with marks := (2 * group, spot.pos) :: spot.marks }

def leave (spot : Spot) (group : Nat) : Spot :=
  { spot with marks := (2 * group + 1, spot.pos) :: spot.marks }

def span? (spot : Spot) (group : Nat) : Option (Nat × Nat) :=
  match spot.marks.lookup (2 * group), spot.marks.lookup (2 * group + 1) with
  | some start, some stop => some (start, stop)
  | _, _ => none

/-- The text of a group that has matched. A group that was entered anew, farther on than
it was left, has not. -/
def groupText? (spot : Spot) (group : Nat) : Option (List Char) :=
  match spot.span? group with
  | some (start, stop) => if start ≤ stop then some (spot.slice start stop) else none
  | none => none

/-- The place for another attempt after one that left the given marks. While a repetition
goes on the attempt leaves none; else it leaves those that are no higher than the marks
set before. -/
def retry (spot : Spot) (repeating : Bool) (left : Marks) : Spot :=
  if repeating then spot
  else { spot with marks := left.filter (·.1 ≤ spot.marks.highest) }

/-- An empty text has neither edges of words nor places that are none. -/
def isAt (spot : Spot) : Edge → Bool
  | .textStart => spot.before = []
  | .lineStart => spot.before.head?.all (· = '\n')
  | .lastLineEnd => spot.rest = [] || spot.rest = ['\n']
  | .lineEnd => spot.rest.head?.all (· = '\n')
  | .textEnd => spot.rest = []
  | .wordEdge ascii negated =>
      !(spot.before.isEmpty && spot.rest.isEmpty) &&
        (spot.before.head?.any (CharClass.word.holds ascii) !=
          spot.rest.head?.any (CharClass.word.holds ascii)) != negated

end Spot

/-- Where a match ends, or the marks that an attempt leaves which fails. -/
abbrev Outcome := Except Marks Spot

abbrev Goal := Spot → Outcome

def Outcome.orElse (outcome : Outcome) (other : Marks → Outcome) : Outcome :=
  match outcome with
  | .ok stop => .ok stop
  | .error left => other left

def matchChar (test : Char → Bool) (spot : Spot) (goal : Goal) : Outcome :=
  match spot.rest.head? with
  | some c => if test c then goal (spot.forward 1) else .error spot.marks
  | none => .error spot.marks

/-- Repeats `step`. The first `least` rounds are due; a further one is tried unless the
one before it, which started at `last`, went nowhere. `settle` gives the place for another
attempt after a further round, or in a lazy repetition after the goal, was tried. -/
def rounds (step : Spot → Goal → Outcome) (lazy : Bool) (settle : Spot → Marks → Spot) :
    Nat → Nat → Option Nat → Option Nat → Spot → Goal → Outcome
  | 0, _, _, _, spot, _ => .error spot.marks
  | fuel + 1, least + 1, most, last, spot, goal =>
      step spot fun next => rounds step lazy settle fuel least (most.map (· - 1)) last next goal
  | fuel + 1, 0, most, last, spot, goal =>
      if most = some 0 || last = some spot.pos then
        goal spot
      else
        let more (start : Spot) : Outcome :=
          step start fun next =>
            rounds step lazy settle fuel 0 (most.map (· - 1)) (some spot.pos) next goal
        if lazy then Outcome.orElse (goal spot) fun left => more (settle spot left)
        else Outcome.orElse (more spot) fun left => goal (settle spot left)

/-- Repeats `step`, which goes one way only, as often as possible. -/
def roundsOnly (step : Spot → Outcome) :
    Nat → Nat → Option Nat → Option Nat → Spot → Outcome
  | 0, _, _, _, spot => .error spot.marks
  | fuel + 1, least + 1, most, last, spot => do
      roundsOnly step fuel least (most.map (· - 1)) last (← step spot)
  | fuel + 1, 0, most, last, spot =>
      if most = some 0 || last = some spot.pos then
        .ok spot
      else
        match step spot with
        | .ok next => roundsOnly step fuel 0 (most.map (· - 1)) (some spot.pos) next
        | .error _ => .ok spot

/-- Rounds that are due, one for each character that is left, and an empty one. -/
def roundsBound (least : Nat) (spot : Spot) : Nat :=
  least + spot.rest.length + 2

/-- A pattern of one character and without groups. -/
def isSimple : Pattern → Bool
  | anyChar _ | oneOf _ _ _ => true
  | group none body => body.isSimple
  | _ => false

/-- Matches the pattern at the place, so that the goal is reached behind it. The ways to
match are tried in a fixed order, and the first one counts from which the goal is reached.
`repeating` tells that the pattern is part of one that is repeated. -/
def run : Pattern → Bool → Spot → Goal → Outcome
  | empty, _, spot, goal => goal spot
  | anyChar newline, _, spot, goal => matchChar (fun c => newline || c ≠ '\n') spot goal
  | oneOf rule negated tests, _, spot, goal =>
      matchChar (fun c => tests.any (·.holds rule c) != negated) spot goal
  | edge e, _, spot, goal => if spot.isAt e then goal spot else .error spot.marks
  | seq first second, repeating, spot, goal =>
      first.run repeating spot fun next => second.run repeating next goal
  | alt first second, repeating, spot, goal =>
      Outcome.orElse (first.run repeating spot goal) fun left =>
        second.run repeating (spot.retry repeating left) goal
  | rep .greedy least most body, repeating, spot, goal =>
      let settle (place : Spot) : Marks → Spot := place.retry (repeating || !body.isSimple)
      rounds (body.run true) false settle (roundsBound least spot) least most none spot goal
  | rep .lazy least most body, repeating, spot, goal =>
      let settle (place : Spot) : Marks → Spot := place.retry repeating
      rounds (body.run true) true settle (roundsBound least spot) least most none spot goal
  | rep .possessive least most body, repeating, spot, goal => do
      let step (start : Spot) : Outcome := body.run repeating start .ok
      goal (← roundsOnly step (roundsBound least spot) least most none spot)
  | group none body, repeating, spot, goal => body.run repeating spot goal
  | group (some number) body, repeating, spot, goal =>
      body.run repeating (spot.enter number) fun next => goal (next.leave number)
  | again rule number, _, spot, goal =>
      let fold (chars : List Char) : List Nat := chars.map fun c => rule.lower c.toNat
      match spot.groupText? number with
      | some text =>
          if fold (spot.rest.take text.length) = fold text then goal (spot.forward text.length)
          else .error spot.marks
      | none => .error spot.marks
  | given number yes no, repeating, spot, goal =>
      if (spot.groupText? number).isSome then yes.run repeating spot goal
      else no.run repeating spot goal
  | atomic body, repeating, spot, goal => do
      goal (← body.run repeating spot .ok)
  | look behind negated body, repeating, spot, goal =>
      let start := match behind with
        | some width => spot.back? width.least
        | none => some spot
      match start.map fun place => body.run repeating place .ok with
      | some (.ok stop) =>
          if negated then .error stop.marks else goal { spot with marks := stop.marks }
      | some (.error left) => if negated then goal (spot.retry repeating left) else .error left
      | none => if negated then goal spot else .error spot.marks

end QmlDoc.Pattern
