import QmlDoc.Declaration.Basic
import QmlDoc.Text.Basic
import QmlDoc.Token.Reader

set_option autoImplicit false

namespace QmlDoc

namespace Argument

-- The loops take a bound on their rounds. Each round reads a token, so the number of
-- tokens ahead is bound enough.

/-- A default value up to the comma or parenthesis behind it, which is read as well.
A block or an array must be empty. -/
def defaultValueFrom : Nat → String → Reading (String × Token)
  | 0, _ => .fail .noToken
  | n + 1, value => do
      let token ← Reading.expect (.oneOf [.element, .char, .string, .blockStart, .arrayStart])
      if token.value = ")" || token.value = "," then
        pure (value, token)
      else if token.value = "\x7b" then
        let _ ← Reading.expect (.one .blockEnd)
        defaultValueFrom n (value ++ "\x7b\x7d")
      else if token.value = "[" then
        let _ ← Reading.expect (.one .arrayEnd)
        defaultValueFrom n (value ++ "[]")
      else
        defaultValueFrom n (value ++ token.value)

/-- One argument whose first token is `first`, with the token behind the argument.
In a typed list the first token is the type and a name follows; otherwise it is the
name, and a type may follow after a colon. -/
def readFrom (typed isSpread : Bool) (first : Token) : Reading (Argument × Token) := do
  let named : Argument ←
    if typed then do
      let name ← Reading.expect (.one .element)
      pure { name := name.value, type := first.value }
    else
      pure { name := first.value, isSpread }
  let mark ← Reading.expect (.one .char)
  let (valued, stop) ←
    if mark.value = "=" then do
      let (value, stop) ← defaultValueFrom ((← get).rest.length + 1) ""
      pure ({ named with defaultValue := some value }, stop)
    else
      pure (named, mark)
  if stop.value = ":" then
    let type ← Reading.expect (.one .element)
    let stop ← Reading.expect (.one .char)
    pure ({ valued with type := type.value }, stop)
  else
    pure (valued, stop)

/-- The arguments from the one that starts with `first` up to the closing
parenthesis. -/
def listFrom (typed : Bool) : Nat → Bool → Token → Reading (List Argument)
  | 0, _, _ => .fail .noToken
  | n + 1, isSpread, first => do
      let (arg, stop) ← readFrom typed isSpread first
      if stop.value = ")" then
        pure [arg]
      else if stop.value ≠ "," then
        .fail (.unexpected stop)
      else
        let next ← Reading.expect (.oneOf [.element, .ellipses])
        let later ←
          if next.kind = .ellipses then do
            let name ← Reading.expect (.one .element)
            listFrom typed n true name
          else
            listFrom typed n false next
        pure (arg :: later)

def readList (typed : Bool) : Reading (List Argument) := do
  let first ← Reading.code
  let bound := (← get).rest.length + 1
  if first.kind = .char && first.value = ")" then
    pure []
  else if first.kind = .ellipses then
    let name ← Reading.expect (.one .element)
    listFrom typed bound true name
  else if first.kind = .element then
    listFrom typed bound false first
  else
    .fail (.unexpected first)

end Argument

/-- A property behind its keyword, which may tell that it is the default property or
that it is read only. -/
def Property.read (keyword : String) : Reading Property := do
  let type ← Reading.expect (.one .element)
  let name ← Reading.expect (.one .element)
  pure {
    name := name.value
    type := type.value
    isDefault := Text.startsWith keyword "default"
    isReadonly := Text.startsWith keyword "readonly" }

def Function.read : Reading Function := do
  let name ← Reading.expect (.one .element)
  let _ ← Reading.expectValue (.one .char) "("
  pure { name := name.value, args := ← Argument.readList false }

/-- A signal may be declared without a list of arguments. What follows such a signal
is left unread, comments included. -/
def Signal.read : Reading Signal := do
  let name ← Reading.expect (.one .element)
  let behind ← get
  let token ← Reading.code
  if token.kind = .char && token.value = "(" then
    pure { name := name.value, args := ← Argument.readList true }
  else
    set behind
    pure { name := name.value }

namespace Enumerator

/-- The rest of a constant, and whether the block of the enumeration ended with it.
Characters without a meaning here are passed over. -/
def restFrom : Nat → Enumerator → Reading (Enumerator × Bool)
  | 0, _ => .fail .noToken
  | n + 1, enumerator => do
      if (← get).atEnd then
        pure (enumerator, false)
      else
        let token ← Reading.any
        match token.kind with
        | .inlineComment => restFrom n { enumerator with doc := Doc.ofToken token }
        | .comment => restFrom n enumerator
        | .blockEnd => pure (enumerator, true)
        | .char =>
            if token.value = "," then
              pure (enumerator, false)
            else if token.value = "=" then
              let value ← Reading.expect (.one .element)
              restFrom n { enumerator with initializer := value.value }
            else
              restFrom n enumerator
        | _ => .fail (.unexpected token)

def read (name : String) : Reading (Enumerator × Bool) := do
  restFrom ((← get).rest.length + 1) { name }

end Enumerator

namespace Enumeration

def add (enumeration : Enumeration) (enumerator : Option Enumerator) : Enumeration :=
  { enumeration with enumerators := enumeration.enumerators ++ enumerator.toList }

/-- Adds the last constant and marks it as such. -/
def close (enumeration : Enumeration) (last : Option Enumerator) : Enumeration :=
  enumeration.add (last.map fun enumerator => { enumerator with isLast := true })

/-- The constants up to the end of the block. `pending` is the comment before the next
constant, `last` the constant read last, to which an inline comment belongs. -/
def bodyFrom : Nat → Enumeration → Option Token → Option Enumerator → Reading Enumeration
  | 0, _, _, _ => .fail .noToken
  | n + 1, enumeration, pending, last => do
      if (← get).atEnd then
        pure (enumeration.close last)
      else
        let token ← Reading.any
        match token.kind with
        | .inlineComment =>
            match last with
            | none => bodyFrom n { enumeration with doc := Doc.ofToken token } pending none
            | some enumerator =>
                bodyFrom n enumeration pending (some { enumerator with doc := Doc.ofToken token })
        | .comment => bodyFrom n enumeration (some token) last
        | .blockEnd => pure (enumeration.close last)
        | .element =>
            let (enumerator, ended) ← Enumerator.read token.value
            let documented := match pending with
              | none => enumerator
              | some comment =>
                  { enumerator with doc := { enumerator.doc with text := comment.value } }
            if ended then
              pure ((enumeration.add last).close (some documented))
            else
              bodyFrom n (enumeration.add last) none (some documented)
        | .char =>
            if token.value = "," then bodyFrom n enumeration pending last
            else .fail (.unexpected token)
        | _ => .fail (.unexpected token)

def read : Reading Enumeration := do
  let name ← Reading.expect (.one .element)
  let _ ← Reading.expect (.one .blockStart)
  bodyFrom ((← get).rest.length + 1) { name := name.value } none none

end Enumeration

end QmlDoc
