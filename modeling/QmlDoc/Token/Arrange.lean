import QmlDoc.Token.Scanner

set_option autoImplicit false

namespace QmlDoc

/-- Why a text has no arranged list of tokens. -/
inductive TokenError
  /-- No form of token fits at `idx`. -/
  | noForm (idx : Nat)
  /-- Neither a keyword nor anything that ends the search stands before an inline
  comment. -/
  | noKeyword
  /-- There is no token before the place where an inline comment belongs. -/
  | noToken
  /-- There is no token at the place given. -/
  | noTokenToTake
  /-- There are no tokens at all. -/
  | noTokens
  deriving DecidableEq, Repr

def TokenError.message : TokenError → String
  | noForm _ => "No lexer matched"
  | noKeyword => "cannot access local variable 'ins_idx' where it is not associated with a value"
  | noToken => "list index out of range"
  | noTokenToTake => "pop index out of range"
  | noTokens => "pop from empty list"

namespace Token

/-- Takes `n` spaces and tabs from the front of every line that has as many. -/
def outdentLines (n : Nat) (text : List Char) : List Char :=
  ['\n'].intercalate <| (text.splitOn '\n').map fun line =>
    if n ≤ (line.takeWhile Text.isIndent).length then line.drop n else line

/-- The token as if it had started in the first column. -/
def outdent (token : Token) : Token :=
  { token with value := String.ofList (outdentLines token.column token.value.toList) }

def outdentAt (tokens : List Token) (i : Nat) : Except TokenError (List Token) :=
  match tokens[i]? with
  | some token => .ok (tokens.set i token.outdent)
  | none => .error (if tokens.isEmpty then .noTokens else .noTokenToTake)

/-- What the search backwards from an inline comment meets first. -/
inductive Anchor
  /-- A keyword, `distance` tokens before the nearest one searched. -/
  | keyword (distance : Nat)
  /-- A comment or a line of the header: the inline comment stays. -/
  | barrier
  deriving DecidableEq, Repr

def anchor? : List Token → Option Anchor
  | [] => none
  | token :: further =>
      match token.kind with
      | .keyword => some (.keyword 0)
      | .comment | .inlineComment | .importLine | .pragmaLine => some .barrier
      | _ =>
          (anchor? further).map fun
            | .keyword distance => .keyword (distance + 1)
            | .barrier => .barrier

/-- The tokens before `start`, the nearest first: at most nineteen, and never the
first of the list. Before the first token stand all others, as on a ring. -/
def searched (tokens : List Token) (start : Nat) : List Token :=
  if start = 0 then (tokens.drop 1).reverse
  else ((tokens.take start).drop (start - 20 + 1)).reverse

/-- Moves the inline comment at `start` in front of the keyword of the member that
it documents, unless another comment already documents that member. -/
def liftAt (tokens : List Token) (start : Nat) : Except TokenError (List Token) :=
  match anchor? (searched tokens start) with
  | none => .error .noKeyword
  | some .barrier => .ok tokens
  | some (.keyword distance) =>
      let target := start - distance - 1
      if target = 0 then .ok tokens
      else
        match tokens[target - 1]?, tokens[start]? with
        | none, _ => .error .noToken
        | some previous, moved =>
            if previous.kind = .inlineComment || previous.isDoc then .ok tokens
            else
              match moved with
              | none => .error .noTokenToTake
              | some comment => .ok ((tokens.eraseIdx start).insertIdx target comment)

/-- Whether the tokens, the nearest last, end in a property's keyword and type, so
that a name has to follow. -/
def awaitsPropertyName (tokens : List Token) : Bool :=
  match tokens.reverse with
  | type :: keyword :: _ =>
      type.kind = .element && keyword.kind = .keyword && Text.endsWith keyword.value "property"
  | _ => false

/-- Tokens as far as they could be arranged, and what prevented the rest. -/
structure Arranged where
  tokens : List Token
  error : Option TokenError

/-- Arranges `ahead`, with `done` before it arranged already. A property may have the
name `property`, which was taken for a keyword. -/
def arrangeFrom (done : List Token) : List Token → Arranged
  | [] => ⟨done, none⟩
  | token :: ahead =>
      let named := if token.kind = .keyword && token.value = "property" && awaitsPropertyName done
        then { token with kind := .element } else token
      let shifted := if named.isComment then named.outdent else named
      let reached := done ++ [shifted]
      if token.kind = .inlineComment && 1 < done.length then
        match liftAt reached done.length with
        | .ok lifted => arrangeFrom lifted ahead
        | .error error => ⟨reached ++ ahead, some error⟩
      else arrangeFrom reached ahead

def arrange (tokens : List Token) : Arranged :=
  arrangeFrom [] tokens

end Token

/-- Reads all tokens ahead and arranges them together with the `earlier` ones. -/
def Scanner.tokenize (s : Scanner) (earlier : List Token) : Scanner × Token.Arranged :=
  let result := s.scan
  let tokens := earlier ++ result.tokens
  (result.stop,
    if result.complete then Token.arrange tokens else ⟨tokens, some (.noForm result.stop.idx)⟩)

def Token.tokenize (text : String) : Token.Arranged :=
  ((Scanner.ofText text).tokenize []).2

end QmlDoc
