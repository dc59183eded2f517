import QmlDoc.Token.Basic

set_option autoImplicit false

namespace QmlDoc

/-- The comment that documents a declaration. An inline comment is written behind
what it documents, any other before it. No comment is the empty text. -/
structure Doc where
  text : String := ""
  isInline : Bool := false
  deriving DecidableEq, Repr

def Doc.ofToken (token : Token) : Doc :=
  { text := token.value, isInline := token.kind = .inlineComment }

/-- A parameter of a function or a signal. One without a type has the type `""`. -/
structure Argument where
  name : String
  type : String := ""
  defaultValue : Option String := none
  isSpread : Bool := false
  deriving DecidableEq, Repr

/-- A value that is given to a property of the base type. -/
structure Attribute where
  name : String
  value : String := ""
  type : String := "var"
  doc : String := ""
  deriving DecidableEq, Repr

/-- A property. An alias has the type `alias`. -/
structure Property where
  name : String
  type : String
  isDefault : Bool := false
  isReadonly : Bool := false
  doc : Doc := {}
  deriving DecidableEq, Repr

/-- A function. It returns nothing unless its type or its comment tells. -/
structure Function where
  name : String
  type : String := "void"
  args : List Argument := []
  doc : Doc := {}
  deriving DecidableEq, Repr

/-- A signal, whose arguments give their types first. -/
structure Signal where
  name : String
  args : List Argument := []
  doc : Doc := {}
  deriving DecidableEq, Repr

/-- A constant of an enumeration. No initializer is the empty text. -/
structure Enumerator where
  name : String
  initializer : String := ""
  isLast : Bool := false
  doc : Doc := {}
  deriving DecidableEq, Repr

structure Enumeration where
  name : String
  enumerators : List Enumerator := []
  doc : Doc := {}
  deriving DecidableEq, Repr

end QmlDoc
