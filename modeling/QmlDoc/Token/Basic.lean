import QmlDoc.Text.Quoted

set_option autoImplicit false

namespace QmlDoc

namespace Token

inductive Kind
  | comment
  | inlineComment
  | string
  | element
  | blockStart
  | blockEnd
  | arrayStart
  | arrayEnd
  | char
  | keyword
  | importLine
  | pragmaLine
  | component
  | inlineComponent
  | attributeName
  | ellipses
  deriving DecidableEq, Repr

/-- The name of a kind in messages and token listings. -/
def Kind.label : Kind → String
  | comment => "comment"
  | inlineComment => "inline_comment"
  | string => "string"
  | element => "element"
  | blockStart => "block_start"
  | blockEnd => "block_end"
  | arrayStart => "array_start"
  | arrayEnd => "array_end"
  | char => "char"
  | keyword => "keyword"
  | importLine => "import"
  | pragmaLine => "pragma"
  | component => "component"
  | inlineComponent => "inline_component"
  | attributeName => "attribute"
  | ellipses => "ellipses"

def Kind.all : List Kind :=
  [comment, inlineComment, string, element, blockStart, blockEnd, arrayStart, arrayEnd, char,
    keyword, importLine, pragmaLine, component, inlineComponent, attributeName, ellipses]

def Kind.ofLabel? (label : String) : Option Kind :=
  all.find? fun kind => kind.label = label

def Kind.isComment : Kind → Bool
  | comment | inlineComment => true
  | _ => false

end Token

/-- A token with its place: `idx` counts the characters before it in the text,
`column` those before it on its line. -/
structure Token where
  kind : Token.Kind
  value : String
  idx : Nat
  column : Nat
  deriving DecidableEq, Repr

namespace Token

def isComment (token : Token) : Bool :=
  token.kind.isComment

/-- A comment that opens with two characters and then none of `/`, `!`, `*` is
no documentation. -/
def opensPlain : List Char → Bool
  | '/' :: second :: third :: _ =>
      (second = '/' || second = '*') && !(third = '/' || third = '!' || third = '*')
  | _ => false

/-- A comment of the form that documentation has. Only comments that stand
before what they document count; an inline comment is none. -/
def isDoc (token : Token) : Bool :=
  token.kind = .comment && !opensPlain token.value.toList

def describe (token : Token) : String :=
  "Token(type=" ++ Text.quote token.kind.label ++ ", value=" ++ Text.quote token.value ++
    ", idx=" ++ toString token.idx ++ ", column=" ++ toString token.column ++ ")"

/-- The token as a line of the token listing: the kind, flush right in twenty
columns, and the value. -/
def listing (token : Token) : String :=
  String.ofList (List.replicate (20 - token.kind.label.length) ' ') ++ token.kind.label ++ " " ++
    token.value

end Token

def isLineComment (text : String) : Bool :=
  Text.startsWith text "//"

end QmlDoc
