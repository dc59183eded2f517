import QmlDoc.Annotation
import QmlDoc.Declaration.Basic
import QmlDoc.Text.Basic

set_option autoImplicit false

namespace QmlDoc

inductive Notice
  /-- A comment gives a type to a parameter that the function does not have. -/
  | unknownArgument (function argument : String)
  /-- A file does not have the form of a QML file. -/
  | unreadable (file : String)
  /-- Where and why, with an excerpt of the text. -/
  | fault (row : Nat) (reason excerpt : String)
  deriving DecidableEq, Repr

namespace Notice

def level : Notice → String
  | unknownArgument _ _ => "WARNING"
  | unreadable _ | fault _ _ _ => "ERROR"

def message : Notice → String
  | unknownArgument function argument =>
      "In function " ++ function ++ "(): Unknown argument " ++ argument
  | unreadable file => "Failed to parse " ++ file
  | fault row reason excerpt =>
      "Lexer error line " ++ toString row ++ ": " ++ reason ++ "\n" ++ excerpt

end Notice

/-- A text that was written, what it was written from as it is afterwards, and what
was reported meanwhile. Writing a property or a function takes a type out of its comment,
and writing it again takes the next one. -/
structure Printed (α : Type) where
  text : String
  after : α
  notices : List Notice

def Doc.before (doc : Doc) : String :=
  if doc.isInline then "" else doc.text ++ "\n"

def Doc.behind (doc : Doc) : String :=
  if doc.isInline then " " ++ doc.text else ""

/-- As `Doc.before` and `Doc.behind`, but nothing at all without a comment. -/
def Doc.beforeIfAny (doc : Doc) : String :=
  if doc.text = "" then "" else doc.before

def Doc.behindIfAny (doc : Doc) : String :=
  if doc.text = "" then "" else doc.behind

def Doc.opensWithLine (doc : Doc) : Bool :=
  !doc.isInline && isLineComment doc.text

/-- The name of a spread argument is only a comment. -/
def Argument.text (arg : Argument) : String :=
  if arg.isSpread then ".../*" ++ arg.name ++ "*/"
  else
    (if arg.type = "" then "" else arg.type ++ " ") ++ arg.name ++
      (arg.defaultValue.map (" = " ++ ·)).getD ""

def Argument.listText (args : List Argument) : String :=
  ", ".intercalate (args.map Argument.text)

/-- An attribute as a variable, unless it is the name of the object. -/
def Attribute.text (attr : Attribute) : String :=
  if attr.name = "id" then ""
  else
    (if attr.doc = "" then "" else attr.doc ++ "\n") ++ attr.type ++ " " ++ attr.name ++ ";"

namespace Property

/-- The property with the first type of its comment as its type. -/
def settle (p : Property) : Property :=
  let (text, type) := Annotation.take .anywhere p.doc.text p.type
  { p with type, doc := { p.doc with text } }

def remark (p : Property) : String :=
  if p.isDefault then "/** @remark This is the default property */\n"
  else if p.isReadonly then "/** @remark This property is read-only */\n"
  else ""

def text (p : Property) : String :=
  p.doc.before ++ p.remark ++ "Q_PROPERTY(" ++ p.type ++ " " ++ p.name ++ " READ dummyGetter_" ++
    p.name ++ "_ignore)" ++ p.doc.behind

def print (p : Property) : Printed Property :=
  ⟨p.settle.text, p.settle, []⟩

end Property

namespace Function

/-- Gives a type to the first argument with a name; nothing if there is none. -/
def setType (name type : String) : List Argument → Option (List Argument)
  | [] => none
  | arg :: later =>
      if arg.name = name then some ({ arg with type } :: later)
      else (setType name type later).map (arg :: ·)

/-- Gives the types of the comment to the arguments, one after the other. -/
def setTypes (function : String) :
    List (String × String) → List Argument → List Argument × List Notice
  | [], args => (args, [])
  | (name, type) :: later, args =>
      match setType name type args with
      | some typed => setTypes function later typed
      | none =>
          let (args, notices) := setTypes function later args
          (args, .unknownArgument function name :: notices)

/-- The function with the types of the parameters and the first type of the result
moved from its comment to the declaration. -/
def settle (f : Function) : Function × List Notice :=
  let pieces := Annotation.pieces f.doc.text
  let (args, notices) := setTypes f.name (pieces.filterMap Annotation.Piece.typing) f.args
  let comment := String.ofList (pieces.flatMap Annotation.Piece.text)
  let (text, type) := Annotation.take .result comment f.type
  ({ f with type, args, doc := { f.doc with text } }, notices)

def text (f : Function) : String :=
  f.doc.before ++ f.type ++ " " ++ f.name ++ "(" ++ Argument.listText f.args ++ ");" ++
    f.doc.behind

def print (f : Function) : Printed Function :=
  let (settled, notices) := f.settle
  ⟨settled.text, settled, notices⟩

end Function

/-- A signal. The access that follows it ends the section of signals. -/
def Signal.text (s : Signal) : String :=
  s.doc.before ++ "Q_SIGNALS: void " ++ s.name ++ "(" ++ Argument.listText s.args ++ "); " ++
    (if s.doc.isInline then s.doc.text ++ "\n" else "") ++ "public:"

def Enumerator.text (e : Enumerator) : String :=
  e.doc.beforeIfAny ++ e.name ++ (if e.initializer = "" then "" else " = " ++ e.initializer) ++
    (if e.isLast then "" else ",") ++ e.doc.behindIfAny

def Enumeration.text (e : Enumeration) : String :=
  e.doc.beforeIfAny ++ "enum class " ++ e.name ++ " \x7b" ++ e.doc.behindIfAny ++ "\n" ++
    String.join (e.enumerators.map fun enumerator => enumerator.text ++ "\n") ++ "\x7d;"

end QmlDoc
