import QmlDoc.Text.Basic
import QmlDoc.Text.Word

set_option autoImplicit false

namespace QmlDoc.Annotation

def isTypeChar (c : Char) : Bool :=
  Text.isWord c || c = '*' || c = '.' || c = '<' || c = '>' || c = '|'

/-- The type at the front of a text, written as `type:` and its name behind white space,
and the text behind it. -/
def typeAt (text : List Char) : Option (List Char × List Char) :=
  let (gap, rest) := Text.spanBlank text
  if gap.isEmpty then none
  else
    match "type:".toList.isPrefixOf? rest with
    | none => none
    | some after =>
        let type := after.takeWhile isTypeChar
        if type.isEmpty then none else some (type, after.dropWhile isTypeChar)

/-- The command `@name`, or the same with a backslash, at the front of a text, and the
text behind it. -/
def commandAt (name : List Char) : List Char → Option (List Char)
  | c :: rest => if c = '@' || c = '\\' then name.isPrefixOf? rest else none
  | [] => none

/-- Where a type may be given. -/
inductive Place
  /-- Anywhere in the comment. -/
  | anywhere
  /-- Behind the command for the result of a function. -/
  | result
  deriving DecidableEq, Repr

/-- The text in which a type has to come first, if the front of `text` is such a place:
a command for the result may end in `s`. -/
def Place.behind : Place → List Char → Option (List Char)
  | anywhere, text => some text
  | result, text =>
      (commandAt "return".toList text).map fun
        | 's' :: rest => rest
        | rest => rest

/-- A type in a comment, and what stands before and behind its annotation. -/
structure Found where
  before : List Char
  type : List Char
  behind : List Char
  deriving DecidableEq, Repr

def atFront? (place : Place) (text : List Char) : Option Found :=
  match place.behind text with
  | none => none
  | some rest =>
      (typeAt rest).map fun (type, behind) =>
        ⟨text.take (text.length - rest.length), type, behind⟩

def find? (place : Place) : List Char → Option Found
  | [] => none
  | c :: rest =>
      match atFront? place (c :: rest) with
      | some found => some found
      | none => (find? place rest).map fun found => { found with before := c :: found.before }

/-- Takes the first annotation out of a comment and its type in place of `type`. -/
def take (place : Place) (comment type : String) : String × String :=
  match find? place comment.toList with
  | none => (comment, type)
  | some found => (String.ofList (found.before ++ found.behind), String.ofList found.type)

/-- A piece of the comment of a function: a character, or the command for a parameter
together with the type and the name that it gives. -/
inductive Piece
  | char (c : Char)
  | param (type name : String)
  deriving DecidableEq, Repr

/-- The command for a parameter at the front of a text, with the number of characters
that it takes. -/
def paramAt (text : List Char) : Option (Piece × Nat) :=
  match commandAt "param".toList text with
  | none => none
  | some rest =>
      match typeAt rest with
      | none => none
      | some (type, after) =>
          let (gap, rest) := Text.spanBlank after
          let name := rest.takeWhile Text.isWord
          if gap.isEmpty || name.isEmpty then none
          else
            some (.param (String.ofList type) (String.ofList name),
              text.length - (rest.dropWhile Text.isWord).length)

/-- The pieces of a comment, its first `skip` characters apart. -/
def piecesFrom (skip : Nat) : List Char → List Piece
  | [] => []
  | c :: rest =>
      match skip with
      | left + 1 => piecesFrom left rest
      | 0 =>
          match paramAt (c :: rest) with
          | some (piece, length) => piece :: piecesFrom (length - 1) rest
          | none => .char c :: piecesFrom 0 rest

def pieces (comment : String) : List Piece :=
  piecesFrom 0 comment.toList

/-- A piece without its type. -/
def Piece.text : Piece → List Char
  | char c => [c]
  | param _ name => "@param ".toList ++ name.toList

def Piece.typing : Piece → Option (String × String)
  | char _ => none
  | param type name => some (name, type)

end QmlDoc.Annotation
