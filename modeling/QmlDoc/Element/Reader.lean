import QmlDoc.Declaration.Reader
import QmlDoc.Element.Basic

set_option autoImplicit false

namespace QmlDoc

namespace Element

/-- The element for a member with the given name. A name that starts with an
underscore marks the member as private, and it is left out. -/
def unlessPrivate (name : String) (element : Element) : Option Element :=
  if Text.startsWith name "_" then none else some element

/-- The member behind its keyword, documented by the comment before the keyword if
there is one. -/
def readMember (keyword : Token) (comment : Option Token) : Reading (Option Element) := do
  let document (own : Doc) : Doc := (comment.map Doc.ofToken).getD own
  if Text.endsWith keyword.value "property" then
    let p ← Property.read keyword.value
    pure (unlessPrivate p.name (.property { p with doc := document p.doc }))
  else if keyword.value = "function" then
    let f ← Function.read
    pure (unlessPrivate f.name (.function { f with doc := document f.doc }))
  else if keyword.value = "signal" then
    let s ← Signal.read
    pure (unlessPrivate s.name (.signal { s with doc := document s.doc }))
  else if keyword.value = "enum" then
    let e ← Enumeration.read
    pure (unlessPrivate e.name (.enumeration { e with doc := document e.doc }))
  else
    .fail (.unknownKeyword keyword)

/-- The attribute behind its name. Its value is the one token behind the colon; a
block is passed over and leaves the value empty. -/
def readAttribute (name : Token) (comment : Option Token) : Reading Element := do
  let _ ← Reading.expect (.one .char)
  let first ← Reading.any
  let value ←
    if first.kind = .blockStart then do
      Reading.skipBlock
      pure ""
    else
      pure first.value
  pure (.attr { name := name.value, value, doc := (comment.map Token.value).getD "" })

def openBlock : Reading Unit := do
  let token ← Reading.code
  if token.kind = .blockStart then pure () else .fail (.noBlock token)

/-- What stands between the name of an inline type and its body: a colon and the base
type. -/
def readInlineInfo (name : Token) (comment : Option Token) : Reading TypeInfo := do
  let _ ← Reading.expect (.one .char)
  let base ← Reading.expect (.one .element)
  openBlock
  pure {
    name := name.value
    baseName := base.value
    headerComments := (comment.map Token.value).toList }

/-- The comment that is pending, as an element of its own. -/
def ofPending (pending : Option Token) : List Element :=
  (pending.map fun token => comment token.value).toList

/-- What a token of a body comes to: the body ends, or it goes on behind further elements and
with a comment that the next member takes as its documentation. -/
inductive Turn
  | ends (elements : List Element)
  | goesOn (elements : List Element) (pending : Option Token)

/-- A token of a body and what belongs to it. A body in it is read by `inside`; without `nested`,
objects of this body are passed over, but not what other bodies in it hold. -/
def turnAt (inside : Reading (List Element)) (nested : Bool) (pending : Option Token)
    (token : Token) : Reading Turn :=
  match token.kind with
  | .comment | .inlineComment => pure (.goesOn (ofPending pending) (some token))
  | .keyword => do pure (.goesOn (← readMember token pending).toList none)
  | .attributeName => do pure (.goesOn [← readAttribute token pending] none)
  | .component =>
      if nested then do
        openBlock
        let info : ComponentInfo := { name := token.value, comment := pending.map Token.value }
        pure (.goesOn [component info (← inside)] none)
      else
        pure (.goesOn [] pending)
  | .inlineComponent => do
      let info ← readInlineInfo token pending
      pure (.goesOn [inlineType info (← inside)] none)
  | .blockStart => do
      Reading.skipBlock
      pure (.goesOn [] pending)
  | .blockEnd => pure (.ends (ofPending pending))
  | _ => pure (.goesOn [] pending)

/-- The next token of a body, unless the tokens end. -/
def readTurn (inside : Reading (List Element)) (nested : Bool) (pending : Option Token) :
    Reading Turn := do
  if (← get).atEnd then pure (.ends (ofPending pending))
  else turnAt inside nested pending (← Reading.any)

/-- The elements behind an opening brace, up to the closing one or the end of the tokens. -/
def elementsFrom : Nat → Bool → Option Token → Reading (List Element)
  | 0, _, _ => .fail .noToken
  | n + 1, nested, pending => do
      match ← readTurn (elementsFrom n true none) nested pending with
      | .ends elements => pure elements
      | .goesOn elements pending => pure (elements ++ (← elementsFrom n nested pending))

/-- The elements of a body as far as they could be read, the error that ended it, if
any, and where reading stopped. -/
structure Body where
  elements : List Element
  error : Option ReadError
  reader : Reader

namespace Body

def failed (error : ReadError) (reader : Reader) : Body :=
  ⟨[], some error, reader⟩

/-- The body that ends here, with the comment that was still pending. -/
def closed (pending : Option Token) (reader : Reader) : Body :=
  ⟨ofPending pending, none, reader⟩

def after (earlier : List Element) (body : Body) : Body :=
  { body with elements := earlier ++ body.elements }

end Body

/-- As `elementsFrom`, where an error leaves the elements that were read before it, other than
those of a body inside. -/
def membersFrom : Nat → Bool → Option Token → Reader → Body
  | 0, _, _, r => .failed .noToken r
  | n + 1, nested, pending, r =>
      match readTurn (elementsFrom n true none) nested pending r with
      | .ok (.ends elements) r => ⟨elements, none, r⟩
      | .ok (.goesOn elements pending) r => (membersFrom n nested pending r).after elements
      | .error error r => .failed error r

/-- A body with its braces. The number of tokens ahead bounds the rounds. -/
def readBody (nested : Bool) (r : Reader) : Body :=
  match openBlock r with
  | .ok _ r => membersFrom (r.rest.length + 1) nested none r
  | .error error r => .failed error r

end Element

end QmlDoc
