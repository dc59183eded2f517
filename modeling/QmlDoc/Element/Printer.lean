import QmlDoc.Declaration.Printer
import QmlDoc.Element.Basic

set_option autoImplicit false

namespace QmlDoc

/-- The names of base types that are known without an import. -/
def qualifiedBase (name : String) : String :=
  if name = "QtObject" then "QtQml.QtObject"
  else if name = "Item" then "QtQuick.Item"
  else name

namespace TypeInfo

/-- The comment that tells how to import a type. It starts a new line when a comment
stands before it that is shown, which a licence tag is not. -/
def importComment (info : TypeInfo) (moduleName : String) : String :=
  let lineBreak := match info.headerComments.getLast? with
    | none => ""
    | some last => if Text.contains "SPDX".toList last.toList then "" else "\\n"
  "/** " ++ lineBreak ++ " <br><b>Import Statement</b> \\n @code import " ++ moduleName ++
    " @endcode */"

/-- What stands before the class: the opening of its namespace and its comments. -/
def opening (info : TypeInfo) : List String :=
  let spaces := nameSpaces info.name
  let given (part : Option String) : List String := part.toList.filter (· ≠ "")
  (if spaces.isEmpty then [] else ["namespace " ++ "::".intercalate spaces ++ " \x7b"]) ++
    info.headerComments ++
    (given info.moduleName).map info.importComment ++
    (given info.version).map fun version => "/** @version " ++ version ++ " */"

def base? (info : TypeInfo) : Option String :=
  if info.baseName = "" then none else some info.baseName

def classLine (info : TypeInfo) (base : Option String) : String :=
  "class " ++ simpleName info.name ++ (base.map (" : public " ++ ·)).getD "" ++ " \x7b"

def closing (info : TypeInfo) : List String :=
  if (nameSpaces info.name).isEmpty then [] else ["\x7d"]

def qualify (info : TypeInfo) : TypeInfo :=
  { info with baseName := qualifiedBase info.baseName }

end TypeInfo

namespace Element

/-- The lines for an object itself: its comment and its declaration. An object without
a name has none. -/
def ownLines (info : ComponentInfo) (elements : List Element) : List String :=
  match objectId elements with
  | none | some "" => []
  | some id => info.comment.toList.filter (· ≠ "") ++ [simpleName info.name ++ " " ++ id ++ ";"]

mutual

/-- The text of an element that is an object, if it has one. -/
def objectTextOf : Element → List String
  | component info elements =>
      let text := "\n".intercalate (ownLines info elements ++ objectTexts elements)
      if text = "" then [] else [text]
  | _ => []

def objectTexts : List Element → List String
  | [] => []
  | element :: later => objectTextOf element ++ objectTexts later

end

/-- The text of an object: its own lines, then the objects inside of it. -/
def objectText (info : ComponentInfo) (elements : List Element) : String :=
  "\n".intercalate (ownLines info elements ++ objectTexts elements)

/-- A piece of the body of a class. -/
inductive Piece
  | access (isPublic : Bool)
  /-- The empty line between two blocks of line comments. -/
  | separator
  /-- What was written for an element that the body holds. -/
  | member (element : Element) (text : String)

def Piece.text : Piece → String
  | access true => "public:"
  | access false => "private:"
  | separator => ""
  | member _ text => text

/-- What the next element depends on: the access in force, and whether a line comment
was written last. -/
structure Context where
  isPublic : Bool := false
  afterLine : Bool := false
  deriving DecidableEq, Repr

/-- A body, or the part of it that one element stands for. -/
structure Written (α : Type) where
  pieces : List Piece
  after : α
  notices : List Notice

/-- Writes an element, which is `current` by now, and the access or the empty line before
it. The element is looked at once more when an empty line may be due. -/
def placeMember (print : Element → Printed Element) (separate isPublic : Bool)
    (context : Context) (element current : Element) : Written Element :=
  let looked : List Piece × Printed Element :=
    if isPublic ≠ context.isPublic then ([.access isPublic], ⟨"", current, []⟩)
    else if context.afterLine then
      let seen := print current
      (if isLineComment seen.text && separate then [.separator] else [], seen)
    else ([], ⟨"", current, []⟩)
  let printed := print looked.2.after
  let member := if printed.text = "" then [] else [Piece.member element printed.text]
  ⟨looked.1 ++ member, printed.after, looked.2.notices ++ printed.notices⟩

/-- Writes one element and tells what the next one depends on. Comments, and elements
without a text, stay under the access in force. -/
def placeElement (print : Element → Printed Element) (separate : Bool) (context : Context)
    (element : Element) : Written Element × Context :=
  let first := print element
  let quiet := element.isComment || first.text = ""
  let isPublic := if quiet then context.isPublic else element.isPublic
  let placed := placeMember print separate isPublic context element first.after
  if quiet then
    let last := print placed.after
    (⟨placed.pieces, last.after, first.notices ++ placed.notices ++ last.notices⟩,
      { context with afterLine := isLineComment last.text })
  else
    (⟨placed.pieces, placed.after, first.notices ++ placed.notices⟩,
      { isPublic, afterLine := false })

def placeElements (print : Element → Printed Element) (separate : Bool) :
    Context → List Element → Written (List Element)
  | _, [] => ⟨[], [], []⟩
  | context, element :: later =>
      let (written, next) := placeElement print separate context element
      let rest := placeElements print separate next later
      ⟨written.pieces ++ rest.pieces, written.after :: rest.after,
        written.notices ++ rest.notices⟩

mutual

/-- How deep types are declared inside of each other. -/
def depth : Element → Nat
  | inlineType _ elements => depthList elements + 1
  | component _ elements => depthList elements
  | _ => 0

def depthList : List Element → Nat
  | [] => 0
  | element :: later => max (depth element) (depthList later)

end

/-- Writes an element in which types are declared inside of each other at most `n`
deep. -/
def printUpTo : Nat → Element → Printed Element
  | _, comment text => ⟨text, comment text, []⟩
  | _, attr a => ⟨a.text, attr a, []⟩
  | _, property p => let printed := p.print; ⟨printed.text, property printed.after, []⟩
  | _, function f =>
      let printed := f.print
      ⟨printed.text, function printed.after, printed.notices⟩
  | _, signal s => ⟨s.text, signal s, []⟩
  | _, enumeration e => ⟨e.text, enumeration e, []⟩
  | _, component info elements => ⟨objectText info elements, component info elements, []⟩
  | 0, inlineType info elements => ⟨"", inlineType info elements, []⟩
  | n + 1, inlineType info elements =>
      let info := info.qualify
      let body := placeElements (printUpTo n) info.separateBlocks {} elements
      let lines := info.opening ++ [info.classLine info.base?] ++ body.pieces.map Piece.text ++
        ["\x7d;"] ++ info.closing
      ⟨"\n".intercalate lines, inlineType info body.after, body.notices⟩

def print (element : Element) : Printed Element :=
  printUpTo element.depth element

end Element

end QmlDoc
