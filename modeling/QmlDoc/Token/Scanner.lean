import QmlDoc.Token.Lexeme

set_option autoImplicit false

namespace QmlDoc

/-- A place in a text. `before` holds the characters that lie behind, the nearest
first, and `rest` those ahead; `idx` may lie beyond the end of the text.
`lineStart` tells that nothing but white space stands between the place and the
start of its line. -/
structure Scanner where
  before : List Char
  rest : List Char
  idx : Nat
  column : Nat
  lineStart : Bool
  deriving DecidableEq, Repr

namespace Scanner

/-- Removes the backslash of every line that is continued by one. A backslash that
comes to stand before a newline through a removal stays. -/
def joinContinued : List Char → List Char
  | '\\' :: '\n' :: rest => '\n' :: joinContinued rest
  | c :: rest => c :: joinContinued rest
  | [] => []

def ofText (text : String) : Scanner :=
  { before := [], rest := joinContinued text.toList, idx := 0, column := 0, lineStart := false }

def text (s : Scanner) : List Char :=
  s.before.reverse ++ s.rest

/-- The column of place `idx`, given what lies behind it: the distance from the
last newline. -/
def columnAt (idx : Nat) (before : List Char) : Nat :=
  idx - (before.dropWhile (· ≠ '\n')).length

def seek (s : Scanner) (idx : Nat) : Scanner :=
  let before := (s.text.take idx).reverse
  { s with before, rest := s.text.drop idx, idx, column := columnAt idx before }

def atEnd (s : Scanner) : Bool :=
  s.rest.isEmpty && s.idx = s.before.length

def passBlanks (before : List Char) (idx column : Nat) (lineStart : Bool) :
    List Char → Scanner
  | c :: rest =>
      if c = '\n' then passBlanks (c :: before) (idx + 1) 0 true rest
      else if Text.isBlank c then passBlanks (c :: before) (idx + 1) (column + 1) lineStart rest
      else { before, rest := c :: rest, idx, column, lineStart }
  | [] => { before, rest := [], idx, column, lineStart }

/-- Goes on to the next token. The start of the text counts as the start of a line;
elsewhere a newline has to be passed. -/
def skipBlanks (s : Scanner) : Scanner :=
  passBlanks s.before s.idx s.column (s.idx = 0) s.rest

def token (s : Scanner) (kind : Token.Kind) (value : String) : Token :=
  { kind, value, idx := s.idx, column := s.column }

def forward (s : Scanner) (n : Nat) : Scanner :=
  let before := (s.rest.take n).reverse ++ s.before
  let idx := s.idx + n
  { s with before, rest := s.rest.drop n, idx, column := columnAt idx before }

def next? (s : Scanner) : Option (Token × Scanner) :=
  (Lexeme.find? s.lineStart s.before.head? s.rest).map fun lexeme =>
    (s.token lexeme.kind (String.ofList lexeme.text), s.forward lexeme.extent)

/-- The tokens read, the place where reading stopped, and whether that is the end
of the text. Reading stops early where no form of token fits. -/
structure Result where
  tokens : List Token
  stop : Scanner
  complete : Bool

/-- Reads at most `n` tokens. -/
def scanUpTo : Nat → Scanner → Result
  | 0, s => ⟨[], s, s.atEnd⟩
  | n + 1, s =>
      let here := s.skipBlanks
      if here.atEnd then ⟨[], here, true⟩
      else
        match here.next? with
        | none => ⟨[], here, false⟩
        | some (token, after) =>
            let later := scanUpTo n after
            { later with tokens := token :: later.tokens }

/-- Reads all tokens ahead. There are no more of them than characters. -/
def scan (s : Scanner) : Result :=
  scanUpTo (s.rest.length + 1) s

end Scanner

end QmlDoc
