import QmlDoc.Pattern.Choice
import QmlDoc.Pattern.Opening

set_option autoImplicit false

namespace QmlDoc.Pattern

/-- A part of a sequence, or the parts of a group that changes nothing. -/
inductive Part
  | single (pattern : Pattern)
  | several (patterns : List Pattern)

def Part.patterns : Part → List Pattern
  | single p => [p]
  | several ps => ps

/-- The whole sequence of parts, of which the latest comes first. -/
def sequence (parts : List Part) : List Pattern :=
  parts.reverse.flatMap Part.patterns

/-- No repetition has so many rounds. -/
def roundLimit : Nat := 4294967295

/-- The digits in braces behind an opening brace, with the number of characters that
they take; nothing if the brace stands for itself. -/
def braceDigits (text : List Char) : Option (List Char × List Char × Nat) :=
  let low := text.takeWhile Char.isDigit
  match text.drop low.length with
  | '\x7d' :: _ => if low.isEmpty then none else some (low, low, low.length + 1)
  | ',' :: after =>
      let high := after.takeWhile Char.isDigit
      if (after.drop high.length).head? = some '\x7d' then
        some (low, high, low.length + high.length + 2)
      else none
  | _ => none

def roundCount (digits : List Char) : Parsing (Option Nat) :=
  let count := Text.ofDigits 10 digits
  if digits.isEmpty then pure none
  else if Text.maxDigits < digits.length then throw ⟨.longNumber digits.length, none⟩
  else if roundLimit ≤ count then throw ⟨.repeatTooLarge, none⟩
  else pure (some count)

/-- The bounds of a repetition whose first character `mark` is read already; nothing
if the character stands for itself. -/
def repeatBounds (mark : Char) : Parsing (Option (Nat × Option Nat)) := do
  match mark with
  | '*' => pure (some (0, none))
  | '+' => pure (some (1, none))
  | '?' => pure (some (0, some 1))
  | _ =>
      let source ← get
      match braceDigits source.rest with
      | none => pure none
      | some (low, high, length) =>
          Parsing.advance length
          let least := (← roundCount low).getD 0
          let most ← roundCount high
          if most.any (· < least) then Parsing.fail .repeatBounds source.pos
          else pure (some (least, most))

def preference : Parsing Preference := do
  if ← Parsing.accept '?' then pure .lazy
  else if ← Parsing.accept '+' then pure .possessive
  else pure .greedy

/-- The repetition of the part read last. Places and repetitions cannot be repeated. -/
def repeated (start : Nat) (bounds : Nat × Option Nat) : Option Part → Parsing Part
  | none | some (.single (.edge _)) => Parsing.fail .nothingToRepeat start
  | some (.single (.rep _ _ _ _)) => Parsing.fail .multipleRepeat start
  | some part => do
      return .single (rep (← preference) bounds.1 bounds.2 (seqAll part.patterns))

/-- The parts with one more, or with the last one repeated. -/
def repeatPart (start : Nat) (mark : Char) (parts : List Part) : Parsing (List Part) := do
  match ← repeatBounds mark with
  | none => return .single (← charOf mark.toNat) :: parts
  | some bounds => return (← repeated start bounds parts.head?) :: parts.tail

def close (start : Nat) : Parsing Unit := do
  if ← Parsing.accept ')' then pure () else Parsing.fail .openGroup start

def alternatives (one : Parsing (List Pattern)) : Nat → Parsing (List (List Pattern))
  | 0 => pure []
  | n + 1 => do
      let first ← one
      if ← Parsing.accept '|' then return first :: (← alternatives one n)
      else pure [first]

/-- A choice behind its condition: one branch, or two with a bar between them. -/
def branches (start number : Nat) (branch : Parsing (List Pattern)) : Parsing Pattern := do
  let yes ← branch
  let no ←
    if ← Parsing.accept '|' then
      let no ← branch
      if (← Parsing.peek) = some '|' then Parsing.failBefore .manyBranches 0
      else pure no
    else pure []
  close start
  pure (given number (seqAll yes) (seqAll no))

/-- A look around. The groups of a look behind are known by their numbers. -/
def readLook (start : Nat) (behind negated : Bool) (body : Parsing (List Pattern)) :
    Parsing Pattern := do
  let outer := (← get).lookedAt
  if behind then
    modify fun source => { source with lookedAt := outer.or (some source.nextGroup) }
  let inner := seqAll (← body)
  modify fun source => { source with lookedAt := outer }
  close start
  let width := inner.width (← get).groupWidth
  pure (look (if behind then some width else none) negated inner)

/-- The rest of a group whose parenthesis is at `start`. A comment is no part. -/
def readGroup (start : Nat) (body branch : Parsing (List Pattern)) :
    Opening → Parsing (List Part)
  | .nothing => pure []
  | .again number => do
      return [.single (again (← get).flags.caseRule number)]
  | .given number => do
      return [.single (← branches start number branch)]
  | .look behind negated => do
      return [.single (← readLook start behind negated body)]
  | .atomic => do
      let inner ← body
      close start
      pure [.single (atomic (seqAll inner))]
  | .unnumbered => do
      let inner ← body
      close start
      pure [.several inner]
  | .flagged flags => do
      let outer := (← get).flags
      modify fun source => { source with flags }
      let inner ← body
      modify fun source => { source with flags := outer }
      close start
      pure [.single (group none (seqAll inner))]
  | .numbered number => do
      let inner := seqAll (← body)
      close start
      closeGroup number inner
      pure [.single (group (some number) inner)]

def skipLine : Nat → Parsing Unit
  | 0 => pure ()
  | n + 1 => do
      match ← Parsing.symbol with
      | none | some (.plain '\n') => pure ()
      | some _ => skipLine n

/-- The parts with what the plain character `c` at `start` means, unless it opens a
group. -/
def plainPart (start : Nat) (c : Char) (parts : List Part) : Parsing (List Part) := do
  let flags := (← get).flags
  let lines := flags.contains .lines
  match c with
  | '.' => pure (.single (anyChar (flags.contains .dotAll)) :: parts)
  | '^' => pure (.single (edge (if lines then .lineStart else .textStart)) :: parts)
  | '$' => pure (.single (edge (if lines then .lineEnd else .lastLineEnd)) :: parts)
  | '[' => return .single (← readSet start) :: parts
  | _ =>
      if c = '*' || c = '+' || c = '?' || c = '\x7b' then repeatPart start c parts
      else return .single (← charOf c.toNat) :: parts

/-- Blanks that are passed over under a flag. -/
def isLayout (c : Char) : Bool :=
  c = ' ' || ('\t' ≤ c && c ≤ '\r')

/-- A sequence up to a bar, a closing parenthesis or the end. `parts` are the parts
read, the latest first; `first` tells that nothing comes before the sequence. -/
def readParts : Nat → Bool → List Part → Parsing (List Pattern)
  | 0, _, parts => pure (sequence parts)
  | n + 1, first, parts => do
      let start ← Parsing.place
      let next ← Parsing.peek
      if next.all fun c => c = '|' || c = ')' then
        pure (sequence parts)
      else
        let source ← get
        let verbose := source.flags.contains .verbose
        match ← Parsing.symbol with
        | none => pure (sequence parts)
        | some (.escaped c) => readParts n first (.single (← escapePattern start c) :: parts)
        | some (.plain c) =>
            if verbose && isLayout c then
              readParts n first parts
            else if verbose && c = '#' then
              skipLine source.rest.length
              readParts n first parts
            else if c = '(' then
              let branch := readParts n false []
              let body := alternatives branch source.rest.length >>= choose
              let found ← readGroup start body branch (← opening (first && parts.isEmpty) start)
              readParts n first (found ++ parts)
            else
              readParts n first (← plainPart start c parts)

def readWhole (size : Nat) : Parsing Pattern := do
  let first ← readParts size true []
  if ← Parsing.accept '|' then
    let later ← alternatives (readParts size false []) size
    return seqAll (← choose (first :: later))
  else
    pure (seqAll first)

/-- What has to hold once a pattern is read: the flags on scripts agree, nothing is left
over, and the groups exist on which choices depend. -/
def checkWhole : Parsing Unit := do
  let source ← get
  if source.flags.contains .ascii && source.flags.contains .unicode then
    throw ⟨.asciiAndUnicode, none⟩
  else if !source.rest.isEmpty then
    Parsing.fail .strayParenthesis source.pos
  else
    match source.conditions.find? fun entry => source.nextGroup ≤ entry.1 with
    | some (number, pos) => Parsing.fail (.unknownGroup number) pos
    | none => pure ()

/-- No look behind goes back farther. -/
def lookLimit : Nat := 4294967295

/-- What has to hold of the parts from left to right: a look behind has one width, and
with `once` nothing is repeated. -/
def checkParts (once : Bool) : Pattern → Except Error Unit
  | seq first second | alt first second | given _ first second => do
      checkParts once first
      checkParts once second
  | rep preference _ _ body =>
      if once then throw ⟨.repeatRefused preference, none⟩ else checkParts once body
  | group _ body | atomic body => checkParts once body
  | look behind _ body =>
      match behind with
      | some width =>
          if lookLimit < width.least then throw ⟨.widthTooLarge, none⟩
          else if width.least ≠ width.most then throw ⟨.widthNotFixed, none⟩
          else checkParts once body
      | none => checkParts once body
  | empty | anyChar _ | oneOf _ _ _ | edge _ | again _ _ => pure ()

/-- A pattern with the number of its groups, their names, and whether its classes know
ASCII only. -/
structure Parsed where
  pattern : Pattern
  groups : Nat
  names : List (String × Nat)
  ascii : Bool

def parse (text : List Char) : Except Error Parsed := do
  let read : Parsing Pattern := do
    Parsing.checkEscape
    let pattern ← readWhole (text.length + 1)
    checkWhole
    pure pattern
  let (pattern, source) ← read.run (.ofText text)
  checkParts (source.flags.contains .once) pattern
  pure ⟨pattern, source.widths.length, source.names, source.flags.asciiOnly⟩

end QmlDoc.Pattern
