import QmlDoc.Document
import QmlDoc.Proofs.Block
import QmlDoc.Proofs.Words

set_option autoImplicit false

namespace QmlDoc

/-- A token without its place. -/
abbrev Shape := Token.Kind × String

def Token.shape (token : Token) : Shape :=
  (token.kind, token.value)

/-- The tokens are of these shapes, wherever they stand. -/
def Spells (tokens : List Token) (shapes : List Shape) : Prop :=
  tokens.map Token.shape = shapes

namespace Outline

/-- A comment. An inline one has the form for what stands before it. -/
structure Comment where
  text : String
  isInline : Bool
  deriving DecidableEq, Repr

def Comment.shape (comment : Comment) : Shape :=
  (if comment.isInline then .inlineComment else .comment, comment.text)

def Comment.doc (comment : Comment) : Doc :=
  ⟨comment.text, comment.isInline⟩

/-- A word of a line of the header. -/
structure Word where
  text : String
  solid : Text.Solid text.toList

/-- An import of a module, with its version and the alias that it gets. -/
structure Import where
  module : Word
  version : Option Word
  short : Option Word
  moduleIsName : module.text ≠ "as"
  versionIsNumber : ∀ word ∈ version, word.text ≠ "as"
  unquoted : Text.startsWith module.text "\"" = false

def Import.words (entry : Import) : List String :=
  ["import", entry.module.text] ++ (entry.version.map Word.text).toList ++
    (entry.short.map fun word => ["as", word.text]).getD []

/-- The table of aliases with that of an import entered. -/
def Import.enter (known : List (String × String)) (entry : Import) : List (String × String) :=
  (entry.short.map fun short => setAlias short.text entry.module.text known).getD known

inductive HeaderLine
  | comment (comment : Comment)
  | importLine (entry : Import)
  | pragmaLine (name : Word) (further : List Word)

namespace HeaderLine

def shape : HeaderLine → Shape
  | comment c => c.shape
  | importLine entry => (.importLine, " ".intercalate entry.words)
  | pragmaLine name further =>
      (.pragmaLine, " ".intercalate ("pragma" :: name.text :: further.map Word.text))

/-- The header comment that a line stands for. A pragma is worth one if it says that the
type is a singleton. -/
def headerComment? : HeaderLine → Option String
  | comment c => some c.text
  | importLine _ => none
  | pragmaLine name _ =>
      if name.text.toList.map Char.toLower = "singleton".toList then
        some Document.singletonComment
      else none

def import? : HeaderLine → Option Import
  | importLine entry => some entry
  | _ => none

end HeaderLine

/-- The document `doc` with all that the lines of a header say added to it. -/
def addHeader (doc : Document) (lines : List HeaderLine) : Document :=
  let imports := lines.filterMap HeaderLine.import?
  { doc with
    info := { doc.info with
      headerComments := doc.info.headerComments ++ lines.filterMap HeaderLine.headerComment? }
    imports := doc.imports ++ imports.map fun entry => entry.module.text
    aliases := imports.foldl Import.enter doc.aliases }

/-- A piece of a default value. Blocks and arrays are empty ones. -/
inductive ValuePiece
  | token (kind : Token.Kind) (value : String) (isValue : kind ∈ [.element, .char, .string])
      (free : value ∉ [")", ",", "\x7b", "["])
  | block
  | array

def ValuePiece.shapes : ValuePiece → List Shape
  | token kind value _ _ => [(kind, value)]
  | block => [(.blockStart, "\x7b"), (.blockEnd, "\x7d")]
  | array => [(.arrayStart, "["), (.arrayEnd, "]")]

def ValuePiece.text : ValuePiece → String
  | token _ value _ _ => value
  | block => "\x7b\x7d"
  | array => "[]"

/-- A parameter as it is written, its first word perhaps behind an ellipsis, and the
argument that it stands for. -/
structure Parameter where
  isSpread : Bool
  first : String
  rest : List Shape
  argument : Argument

namespace Parameter

def shapes (parameter : Parameter) : List Shape :=
  (if parameter.isSpread then [(.ellipses, "...")] else []) ++
    (.element, parameter.first) :: parameter.rest

def listShapes : List Parameter → List Shape
  | [] => []
  | first :: later => first.shapes ++ later.flatMap fun next => (.char, ",") :: next.shapes

end Parameter

/-- What follows the name of a parameter of a function. -/
inductive ParameterEnd
  | bare
  | typed (type : String)
  | valued (pieces : List ValuePiece)

/-- A parameter of a function, with its type or its default value behind the name. -/
structure FunctionParameter where
  isSpread : Bool
  name : String
  ending : ParameterEnd

def FunctionParameter.written (parameter : FunctionParameter) : Parameter :=
  let named : Argument := { name := parameter.name, isSpread := parameter.isSpread }
  match parameter.ending with
  | .bare => ⟨parameter.isSpread, parameter.name, [], named⟩
  | .typed type =>
      ⟨parameter.isSpread, parameter.name, [(.char, ":"), (.element, type)],
        { named with type }⟩
  | .valued pieces =>
      ⟨parameter.isSpread, parameter.name, (.char, "=") :: pieces.flatMap ValuePiece.shapes,
        { named with defaultValue := some (String.join (pieces.map ValuePiece.text)) }⟩

/-- A parameter of a signal has its type in front of its name. -/
structure SignalParameter where
  type : String
  name : String

def SignalParameter.written (parameter : SignalParameter) : Parameter :=
  ⟨false, parameter.type, [(.element, parameter.name)],
    { name := parameter.name, type := parameter.type }⟩

/-- A comment for a constant of an enumeration. An inline comment stands before or behind
the comma. -/
inductive ConstantNote
  | absent
  | before (text : String)
  | after (text : String) (behindComma : Bool)

namespace ConstantNote

def before? : ConstantNote → Option String
  | before text => some text
  | _ => none

def after? : ConstantNote → Option String
  | after text _ => some text
  | _ => none

/-- The inline comment on the given side of the comma. -/
def at? (behindComma : Bool) : ConstantNote → Option String
  | after text side => if side = behindComma then some text else none
  | _ => none

def doc : ConstantNote → Doc
  | absent => {}
  | before text => { text }
  | after text _ => { text, isInline := true }

end ConstantNote

structure Constant where
  name : String
  initializer : Option String
  note : ConstantNote

namespace Constant

def inlineShapes (comment : Option String) : List Shape :=
  (comment.map fun text => (.inlineComment, text)).toList

def initializerShapes (initializer : Option String) : List Shape :=
  (initializer.map fun value => [(.char, "="), (.element, value)]).getD []

def stemShapes (constant : Constant) : List Shape :=
  (constant.note.before?.map fun text => (.comment, text)).toList ++
    (.element, constant.name) :: initializerShapes constant.initializer

def shapesWithComma (constant : Constant) : List Shape :=
  constant.stemShapes ++ (inlineShapes (constant.note.at? false) ++
    (.char, ",") :: inlineShapes (constant.note.at? true))

def shapesAlone (constant : Constant) : List Shape :=
  constant.stemShapes ++ inlineShapes constant.note.after?

def listShapes (closingComma : Bool) : List Constant → List Shape
  | [] => []
  | [constant] => if closingComma then constant.shapesWithComma else constant.shapesAlone
  | constant :: next :: later =>
      constant.shapesWithComma ++ listShapes closingComma (next :: later)

def enumerator (constant : Constant) : Enumerator :=
  { name := constant.name, initializer := constant.initializer.getD "", doc := constant.note.doc }

def enumerators : List Constant → List Enumerator
  | [] => []
  | [constant] => [{ constant.enumerator with isLast := true }]
  | constant :: next :: later => constant.enumerator :: enumerators (next :: later)

end Constant

inductive PropertyForm
  | plain
  | asDefault
  | asReadonly
  deriving DecidableEq, Repr

def PropertyForm.keyword : PropertyForm → String
  | plain => "property"
  | asDefault => "default property"
  | asReadonly => "readonly property"

/-- A member of a body, other than an object or a type. -/
inductive Member
  | property (form : PropertyForm) (type name : String) (value : Option String)
  | function (name : String) (parameters : List FunctionParameter) (body : List Shape)
      (blocks : BlocksMatch (body.map Prod.fst))
  | signal (name : String) (parameters : Option (List SignalParameter))
  | enumeration (name : String) (constants : List Constant) (closingComma : Bool)
  | attr (name value : String) (isString : Bool)

namespace Member

def shapes : Member → List Shape
  | property form type name value =>
      [(.keyword, form.keyword), (.element, type), (.element, name)] ++
        (value.map fun value => [(.char, ":"), (.element, value)]).getD []
  | function name parameters body _ =>
      (.keyword, "function") :: (.element, name) :: (.char, "(") ::
        (Parameter.listShapes (parameters.map FunctionParameter.written) ++
          (.char, ")") :: (.blockStart, "\x7b") :: (body ++ [(.blockEnd, "\x7d")]))
  | signal name parameters =>
      (.keyword, "signal") :: (.element, name) ::
        (parameters.map fun parameters =>
          (.char, "(") :: (Parameter.listShapes (parameters.map SignalParameter.written) ++
            [(.char, ")")])).getD []
  | enumeration name constants closingComma =>
      (.keyword, "enum") :: (.element, name) :: (.blockStart, "\x7b") ::
        (Constant.listShapes closingComma constants ++ [(.blockEnd, "\x7d")])
  | attr name value isString =>
      [(.attributeName, name), (.char, ":"), (if isString then .string else .element, value)]

/-- The element that a member stands for under its comment. A private member stands for
none; an attribute cannot be private. -/
def element? (comment : Option Comment) : Member → Option Element
  | property form type name _ =>
      Element.unlessPrivate name <| .property
        { name, type, isDefault := form = .asDefault, isReadonly := form = .asReadonly
          doc := (comment.map Comment.doc).getD {} }
  | function name parameters _ _ =>
      Element.unlessPrivate name <| .function
        { name, args := parameters.map fun parameter => parameter.written.argument
          doc := (comment.map Comment.doc).getD {} }
  | signal name parameters =>
      Element.unlessPrivate name <| .signal
        { name, args := (parameters.getD []).map fun parameter => parameter.written.argument
          doc := (comment.map Comment.doc).getD {} }
  | enumeration name constants _ =>
      Element.unlessPrivate name <| .enumeration
        { name, enumerators := Constant.enumerators constants
          doc := (comment.map Comment.doc).getD {} }
  | attr name value _ =>
      some (.attr { name, value, doc := (comment.map Comment.text).getD "" })

end Member

mutual

/-- What can stand in a body under a comment. -/
inductive Entry
  | member (declared : Member)
  | component (name : String) (body : List Item)
  | inlineType (name baseName : String) (body : List Item)

/-- A piece of a body: a comment that stands alone, or an entry with the comment right
before it. -/
inductive Item
  | comment (note : Comment)
  | entry (note : Option Comment) (part : Entry)

end

def braced (shapes : List Shape) : List Shape :=
  (.blockStart, "\x7b") :: (shapes ++ [(.blockEnd, "\x7d")])

mutual

def Entry.shapes : Entry → List Shape
  | .member declared => declared.shapes
  | .component name body => (.component, name) :: braced (bodyShapes body)
  | .inlineType name baseName body =>
      (.inlineComponent, name) :: (.char, ":") :: (.element, baseName) :: braced (bodyShapes body)

def Item.shapes : Item → List Shape
  | .comment note => [note.shape]
  | .entry note part => (note.map Comment.shape).toList ++ part.shapes

def bodyShapes : List Item → List Shape
  | [] => []
  | item :: later => item.shapes ++ bodyShapes later

end

mutual

def Entry.element? (note : Option Comment) : Entry → Option Element
  | .member declared => declared.element? note
  | .component name body =>
      some (.component { name, comment := note.map Comment.text } (elements body))
  | .inlineType name baseName body =>
      some (.inlineType
        { name, baseName, headerComments := (note.map Comment.text).toList } (elements body))

def Item.element? : Item → Option Element
  | .comment note => some (.comment note.text)
  | .entry note part => part.element? note

def elements : List Item → List Element
  | [] => []
  | item :: later => item.element?.toList ++ elements later

end

/-- Puts a comment in front of a body. Tokens do not tell a comment that stands alone from
the comment of what follows, so an entry without a comment takes it. -/
def addComment (note : Comment) : List Item → List Item
  | .entry none part :: later => .entry (some note) part :: later
  | items => .comment note :: items

mutual

def Entry.settle : Entry → Entry
  | .member declared => .member declared
  | .component name body => .component name (settleBody body)
  | .inlineType name baseName body => .inlineType name baseName (settleBody body)

/-- The body with the same tokens in which no comment stands alone before an entry without
one. -/
def settleBody : List Item → List Item
  | [] => []
  | .comment note :: later => addComment note (settleBody later)
  | .entry note part :: later => .entry note part.settle :: settleBody later

end

/-- Whether the items start with an entry that has no comment. -/
def startsBare : List Item → Bool
  | .entry none _ :: _ => true
  | _ => false

mutual

def Entry.isSettled : Entry → Bool
  | .member _ => true
  | .component _ body => bodyIsSettled body
  | .inlineType _ _ body => bodyIsSettled body

/-- Whether no comment stands alone right before an entry that has none. -/
def bodyIsSettled : List Item → Bool
  | [] => true
  | .comment _ :: later => !startsBare later && bodyIsSettled later
  | .entry _ part :: later => part.isSettled && bodyIsSettled later

end

/-- A whole file: header, base type, body and footer. Its tokens spell it out and its meaning is
a document; what a document does not record is part of the spelling only. -/
structure File where
  header : List HeaderLine
  baseName : String
  body : List Item
  footer : List Comment

namespace File

def shapes (file : File) : List Shape :=
  file.header.map HeaderLine.shape ++
    (.component, file.baseName) :: (braced (bodyShapes file.body) ++
      file.footer.map Comment.shape)

def settle (file : File) : File :=
  { file with body := settleBody file.body }

def isSettled (file : File) : Bool :=
  bodyIsSettled file.body

/-- The document `doc` with all that a file says added to it. -/
def addTo (doc : Document) (file : File) : Document :=
  let opened := addHeader doc file.header
  { opened with
    info := { opened.info with baseName := file.baseName }
    elements := opened.elements ++ elements file.body
    footerComments := opened.footerComments ++ file.footer.map Comment.text }

end File

end Outline

end QmlDoc
