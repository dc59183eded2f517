import QmlDoc.Declaration.Basic
import QmlDoc.Text.Basic

set_option autoImplicit false

namespace QmlDoc

/-- The parts of a dotted name. -/
def nameParts (name : String) : List String :=
  (name.toList.splitOn '.').map String.ofList

def simpleName (name : String) : String :=
  (nameParts name).getLast?.getD ""

def nameSpaces (name : String) : List String :=
  (nameParts name).dropLast

/-- An object inside a type, without its body. -/
structure ComponentInfo where
  name : String
  baseName : String := ""
  comment : Option String := none
  deriving DecidableEq, Repr

/-- A type, without its body. `separateBlocks` asks for an empty line between
neighbouring blocks of line comments. -/
structure TypeInfo where
  name : String
  baseName : String := ""
  moduleName : Option String := none
  version : Option String := none
  separateBlocks : Bool := true
  headerComments : List String := []
  deriving DecidableEq, Repr

/-- A piece of the body of a type or of an object. -/
inductive Element
  /-- A comment that documents nothing in particular. -/
  | comment (text : String)
  | attr (attr : Attribute)
  | property (property : Property)
  | function (function : Function)
  | signal (signal : Signal)
  | enumeration (enumeration : Enumeration)
  /-- A nested object. -/
  | component (info : ComponentInfo) (elements : List Element)
  /-- A type that is declared inside another one. -/
  | inlineType (info : TypeInfo) (elements : List Element)
  deriving Repr

namespace Element

def attr? : Element → Option Attribute
  | attr a => some a
  | _ => none

def property? : Element → Option Property
  | property p => some p
  | _ => none

def function? : Element → Option Function
  | function f => some f
  | _ => none

def signal? : Element → Option Signal
  | signal s => some s
  | _ => none

/-- Members that the documentation lists as public. Attributes and nested objects
are an implementation detail; a comment takes the access of what is before it. -/
def isPublic : Element → Bool
  | attr _ | component _ _ => false
  | _ => true

def isComment : Element → Bool
  | comment _ => true
  | _ => false

def objectId (elements : List Element) : Option String :=
  ((elements.filterMap attr?).find? fun a => a.name = "id").map Attribute.value

end Element

end QmlDoc
