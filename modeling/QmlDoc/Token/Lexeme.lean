import QmlDoc.Text.Basic
import QmlDoc.Text.Word
import QmlDoc.Token.Basic

set_option autoImplicit false

namespace QmlDoc

/-- A recognised piece of text. `text` becomes the token's value; the `lead`
characters before it belong to the form but not to the value. -/
structure Lexeme where
  kind : Token.Kind
  lead : Nat
  text : List Char
  deriving DecidableEq, Repr

namespace Lexeme

/-- How many characters of the text the lexeme covers. -/
def extent (lexeme : Lexeme) : Nat :=
  lexeme.lead + lexeme.text.length

/-- A recogniser is given the character before the text, if there is one, and the
text; it looks at the front of the text only. -/
abbrev Rule := Option Char → List Char → Option Lexeme

/-- A rule whose lexeme is `read text` when that is a text. -/
def plain (kind : Token.Kind) (read : List Char → Option (List Char)) : Rule :=
  fun _ text => (read text).map fun found => ⟨kind, 0, found⟩

/-- The text up to the first end of a block comment, that end included. -/
def throughClose : List Char → Option (List Char)
  | '*' :: '/' :: _ => some ['*', '/']
  | c :: rest => (throughClose rest).map (c :: ·)
  | [] => none

/-- The rest of a line comment: up to the end of the line, and on through the
following lines as long as each of them, after its indentation, `opens`. -/
def lineRun (opens : List Char → Bool) : List Char → List Char
  | [] => []
  | c :: rest =>
      if c = '\n' then
        if opens (rest.dropWhile Text.isIndent) then '\n' :: lineRun opens rest else []
      else c :: lineRun opens rest

/-- The front of a documentation comment for what stands before it, behind the two
characters `open₁` and `open₂`. -/
def opensInline (open₁ open₂ : Char) (styles : List Char) : List Char → Bool
  | c :: d :: style :: '<' :: _ => c = open₁ && d = open₂ && styles.contains style
  | _ => false

def opensLine : List Char → Bool
  | '/' :: '/' :: _ => true
  | _ => false

/-- A comment that opens with `/*!<` or `/**<`, through the first end behind that. -/
def inlineBlock (text : List Char) : Option (List Char) :=
  if opensInline '/' '*' ['!', '*'] text then
    (throughClose (text.drop 4)).map (text.take 4 ++ ·)
  else none

def inlineLines (text : List Char) : Option (List Char) :=
  let opens := opensInline '/' '/' ['/', '!']
  if opens text then some (lineRun opens text) else none

def blockComment : List Char → Option (List Char)
  | '/' :: '*' :: rest => (throughClose rest).map ('/' :: '*' :: ·)
  | _ => none

def lineComment (text : List Char) : Option (List Char) :=
  if opensLine text then some (lineRun opensLine text) else none

/-- The rest of a string after its opening quote. A backslash and the character
after it, which must not be a newline, stand for one character. -/
def stringRest (quote : Char) : List Char → Option (List Char)
  | [] => none
  | '\\' :: c :: rest =>
      if c = '\n' then none else (stringRest quote rest).map ('\\' :: c :: ·)
  | c :: rest =>
      if c = quote then some [c] else (stringRest quote rest).map (c :: ·)

/-- A string in double quotes, single quotes or grave accents. -/
def stringLiteral : List Char → Option (List Char)
  | c :: rest =>
      if c = '"' || c = '\'' || c = '\x60' then (stringRest c rest).map (c :: ·) else none
  | [] => none

/-- A brace, unless an apostrophe stands on either side of it. -/
def brace (kind : Token.Kind) (c : Char) : Rule
  | previous, d :: rest =>
      let quoted := previous = some '\'' || rest.head? = some '\''
      if d = c && !quoted then some ⟨kind, 0, [c]⟩ else none
  | _, [] => none

def exactly (form : List Char) (text : List Char) : Option (List Char) :=
  if form.isPrefixOf text then some form else none

/-- The word `word`, white space, and the rest of the line that the white space leads to,
provided that this rest `starts`. -/
def directive (word : List Char) (starts : List Char → Bool) (text : List Char) :
    Option (List Char) :=
  match word.isPrefixOf? text with
  | none => none
  | some after =>
      let (gap, rest) := Text.spanBlank after
      if !gap.isEmpty && starts rest then some (word ++ gap ++ rest.takeWhile (· ≠ '\n')) else none

def wordBefore (word : List Char) (text : List Char) : Option (List Char) :=
  match word.isPrefixOf? text with
  | some (c :: _) => if Text.isBlank c then some word else none
  | _ => none

def wordsBefore (first second : List Char) (text : List Char) : Option (List Char) :=
  match first.isPrefixOf? text with
  | none => none
  | some after =>
      let (gap, rest) := Text.spanBlank after
      if gap.isEmpty then none else (wordBefore second rest).map (first ++ gap ++ ·)

/-- The words that declare a member, other than `function`. -/
def memberKeyword (text : List Char) : Option (List Char) :=
  (wordsBefore "default".toList "property".toList text).or <|
  (wordBefore "property".toList text).or <|
  (wordsBefore "readonly".toList "property".toList text).or <|
  (wordBefore "signal".toList text).or <|
  wordBefore "enum".toList text

/-- The word `function` of a function with a name: white space follows, and after
the first blank another character that is no parenthesis. -/
def functionKeyword (text : List Char) : Option (List Char) :=
  match "function".toList.isPrefixOf? text with
  | none => none
  | some after =>
      let (gap, rest) := Text.spanBlank after
      let named := match gap, rest with
        | [], _ => false
        | [_], next => next.head?.any (· ≠ '(')
        | _ :: _ :: _, _ => true
      if named then some "function".toList else none

def element : List Char → Option (List Char)
  | c :: rest =>
      if Text.isWord c then
        some (c :: rest.takeWhile fun d => Text.isWord d || d = '.' || d = '<' || d = '>')
      else none
  | [] => none

def singleChar : List Char → Option (List Char)
  | c :: _ => if c = '\n' then none else some [c]
  | [] => none

def isNameChar (c : Char) : Bool :=
  c = '-' || c = '.' || Text.isWord c

/-- A name with `mark` behind it, after white space if there is any. -/
def nameBefore (mark : Char) (text : List Char) : Option (List Char) :=
  let name := text.takeWhile isNameChar
  let after := (Text.spanBlank (text.dropWhile isNameChar)).2
  if !name.isEmpty && after.head? = some mark then some name else none

/-- The name of an inline component. The word `component` and the blank before the
name are not part of the value. -/
def inlineComponent : Rule := fun _ text =>
  match "component ".toList.isPrefixOf? text with
  | none => none
  | some after =>
      let name := after.takeWhile isNameChar
      if name.isEmpty then none else some ⟨.inlineComponent, "component ".toList.length, name⟩

/-- The forms that are tried only for the first token of a line. -/
def lineRules : List Rule :=
  [inlineComponent, plain .component (nameBefore '\x7b'), plain .attributeName (nameBefore ':')]

/-- The forms that are tried for every token. -/
def rules : List Rule :=
  [plain .inlineComment inlineBlock,
    plain .inlineComment inlineLines,
    plain .comment blockComment,
    plain .comment lineComment,
    plain .string stringLiteral,
    brace .blockStart '\x7b',
    brace .blockEnd '\x7d',
    plain .arrayStart (exactly ['[']),
    plain .arrayEnd (exactly [']']),
    plain .importLine (directive "import".toList fun _ => true),
    plain .pragmaLine (directive "pragma".toList fun rest => rest.head?.any Text.isWord),
    plain .keyword memberKeyword,
    plain .keyword functionKeyword,
    plain .ellipses (exactly "...".toList),
    plain .element element,
    plain .char singleChar]

/-- The lexeme at the front of a text, by the first form that fits. -/
def find? (firstOnLine : Bool) (previous : Option Char) (text : List Char) : Option Lexeme :=
  (if firstOnLine then lineRules ++ rules else rules).findSome? fun rule => rule previous text

end Lexeme

end QmlDoc
