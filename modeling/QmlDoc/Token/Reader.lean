import QmlDoc.Token.Basic

set_option autoImplicit false

namespace QmlDoc

/-- The tokens ahead, and how many lie behind. -/
structure Reader where
  rest : List Token
  idx : Nat
  deriving DecidableEq, Repr

def Reader.ofTokens (tokens : List Token) : Reader :=
  ⟨tokens, 0⟩

def Reader.atEnd (r : Reader) : Bool :=
  r.rest.isEmpty

/-- The kinds of token that may stand at a place. -/
inductive Expected
  | one (kind : Token.Kind)
  | oneOf (kinds : List Token.Kind)
  deriving DecidableEq, Repr

def Expected.accepts : Expected → Token.Kind → Bool
  | one kind, found => found = kind
  | oneOf kinds, found => kinds.contains found

def Expected.describe : Expected → String
  | one kind => kind.label
  | oneOf kinds => Text.quoteList (kinds.map Token.Kind.label)

inductive ReadError
  /-- A token is needed and none is left. -/
  | noToken
  | wrongKind (expected : Expected) (token : Token)
  | wrongValue (value : String) (token : Token)
  /-- The name of the base type is not followed by a block. -/
  | noBlock (token : Token)
  | unknownKeyword (token : Token)
  | unexpected (token : Token)
  /-- A line of the header has too few words. -/
  | noWord
  deriving DecidableEq, Repr

namespace ReadError

def token? : ReadError → Option Token
  | noToken | noWord => none
  | wrongKind _ token | wrongValue _ token | noBlock token | unknownKeyword token
  | unexpected token => some token

def message : ReadError → String
  | noToken | noWord => "list index out of range"
  | wrongKind expected token =>
      "Expected token of type '" ++ expected.describe ++ "', got '" ++ token.kind.label ++
        "' instead"
  | wrongValue value token =>
      "Expected token with value '" ++ value ++ "', got '" ++ token.value ++ "' instead"
  | noBlock _ => "Expected '\x7b' after base class name"
  | unknownKeyword token => "Unknown keyword '" ++ token.value ++ "'"
  | unexpected token => "Unexpected token: " ++ token.describe

end ReadError

/-- Reading something from the tokens, in single steps. -/
inductive Reading (α : Type) : Type
  | done (value : α)
  | fail (error : ReadError)
  /-- Reads a token. -/
  | take (next : Token → Reading α)
  /-- Looks where the reader is. -/
  | look (next : Reader → Reading α)
  /-- Puts the reader to a place. -/
  | put (place : Reader) (next : Reading α)

namespace Reading

variable {α β : Type}

protected def bind : Reading α → (α → Reading β) → Reading β
  | done value, later => later value
  | fail error, _ => fail error
  | take next, later => take fun token => (next token).bind later
  | look next, later => look fun r => (next r).bind later
  | put place next, later => put place (next.bind later)

instance : Monad Reading where
  pure := done
  bind := Reading.bind

instance : MonadStateOf Reader Reading where
  get := look done
  set place := put place (done ())
  modifyGet change := look fun r => put (change r).2 (done (change r).1)

/-- What is read at a place. An error leaves the reader where it arose. -/
def run : Reading α → Reader → EStateM.Result ReadError Reader α
  | done value, r => .ok value r
  | fail error, r => .error error r
  | take next, r =>
      match r.rest with
      | [] => .error .noToken r
      | token :: rest => (next token).run ⟨rest, r.idx + 1⟩
  | look next, r => (next r).run r
  | put place next, _ => next.run place

instance : CoeFun (Reading α) fun _ => Reader → EStateM.Result ReadError Reader α where
  coe := run

def any : Reading Token :=
  take done

-- The loops below take the tokens ahead as a bound on their rounds, each of which reads one.

def codeFrom : List Token → Reading Token
  | [] => fail .noToken
  | _ :: ahead => do
      let token ← any
      if token.isComment then codeFrom ahead else pure token

/-- The next token other than a comment. -/
def code : Reading Token := do
  codeFrom (← get).rest

/-- The next token other than a comment, which must be one of the `expected`. -/
def expect (expected : Expected) : Reading Token := do
  let token ← code
  if expected.accepts token.kind then pure token else fail (.wrongKind expected token)

def expectValue (expected : Expected) (value : String) : Reading Token := do
  let token ← expect expected
  if token.value = value then pure token else fail (.wrongValue value token)

/-- The rest of a block, `depth` blocks inside of it being open. -/
def blockFrom (depth : Nat) : List Token → Reading Unit
  | [] => fail .noToken
  | _ :: ahead => do
      let token ← any
      match token.kind, depth with
      | .blockStart, _ => blockFrom (depth + 1) ahead
      | .blockEnd, 0 => pure ()
      | .blockEnd, outer + 1 => blockFrom outer ahead
      | _, _ => blockFrom depth ahead

/-- Passes the rest of the block that was just opened, up to its end. -/
def skipBlock : Reading Unit := do
  blockFrom 0 (← get).rest

end Reading

end QmlDoc
