import QmlDoc.Text.Quoted

set_option autoImplicit false

namespace QmlDoc.Text

inductive DecodeFault
  | invalidStart
  | invalidContinuation
  | unexpectedEnd
  deriving DecidableEq, Repr

def DecodeFault.describe : DecodeFault → String
  | invalidStart => "invalid start byte"
  | invalidContinuation => "invalid continuation byte"
  | unexpectedEnd => "unexpected end of data"

/-- What is wrong with the `length` bytes from place `pos` on, the first of which is
`byte`. -/
structure DecodeError where
  fault : DecodeFault
  byte : UInt8
  pos : Nat
  length : Nat
  deriving DecidableEq, Repr

def DecodeError.message (error : DecodeError) : String :=
  let last := error.pos + error.length - 1
  let bytes :=
    if error.length = 1 then
      "byte 0x" ++ String.ofList (hex 2 error.byte.toNat) ++ " in position " ++ toString error.pos
    else
      "bytes in position " ++ toString error.pos ++ "-" ++ toString last
  "'utf-8' codec can't decode " ++ bytes ++ ": " ++ error.fault.describe

def isContinuation (byte : UInt8) : Bool :=
  0x80 ≤ byte && byte < 0xc0

/-- The bytes that may follow `first`. Some are excluded because the character would
have a shorter form, would be a surrogate, or would lie beyond the last code point. -/
def mayFollow (first second : UInt8) : Bool :=
  isContinuation second &&
    !(first = 0xe0 && second < 0xa0) && !(first = 0xed && 0xa0 ≤ second) &&
    !(first = 0xf0 && second < 0x90) && !(first = 0xf4 && 0x90 ≤ second)

/-- The character of a first byte, reduced to its own bits, and the bytes behind it. -/
def compose (bits : Nat) (bytes : List UInt8) : Char :=
  Char.ofNat (bytes.foldl (fun code byte => 64 * code + byte.toNat % 64) bits)

def decodeFrom (pos : Nat) : List UInt8 → Except DecodeError (List Char)
  | [] => .ok []
  | b₀ :: rest₀ =>
      let fault (fault : DecodeFault) (length : Nat) : Except DecodeError (List Char) :=
        .error ⟨fault, b₀, pos, length⟩
      if b₀ < 0x80 then (decodeFrom (pos + 1) rest₀).map (Char.ofNat b₀.toNat :: ·)
      else if b₀ < 0xc2 || 0xf5 ≤ b₀ then fault .invalidStart 1
      else
        match rest₀ with
        | [] => fault .unexpectedEnd 1
        | b₁ :: rest₁ =>
            if !mayFollow b₀ b₁ then fault .invalidContinuation 1
            else if b₀ < 0xe0 then
              (decodeFrom (pos + 2) rest₁).map (compose (b₀.toNat % 32) [b₁] :: ·)
            else
              match rest₁ with
              | [] => fault .unexpectedEnd 2
              | b₂ :: rest₂ =>
                  if !isContinuation b₂ then fault .invalidContinuation 2
                  else if b₀ < 0xf0 then
                    (decodeFrom (pos + 3) rest₂).map (compose (b₀.toNat % 16) [b₁, b₂] :: ·)
                  else
                    match rest₂ with
                    | [] => fault .unexpectedEnd 3
                    | b₃ :: rest₃ =>
                        if !isContinuation b₃ then fault .invalidContinuation 3
                        else
                          (decodeFrom (pos + 4) rest₃).map
                            (compose (b₀.toNat % 8) [b₁, b₂, b₃] :: ·)

/-- A carriage return, alone or before a newline, is a newline. -/
def unifyNewlines : List Char → List Char
  | '\r' :: '\n' :: rest => '\n' :: unifyNewlines rest
  | '\r' :: rest => '\n' :: unifyNewlines rest
  | c :: rest => c :: unifyNewlines rest
  | [] => []

def decode (bytes : List UInt8) : Except DecodeError String :=
  (decodeFrom 0 bytes).map fun text => String.ofList (unifyNewlines text)

/-- The bytes of a file without the mark that tells their encoding. -/
def dropMark : List UInt8 → List UInt8
  | 0xef :: 0xbb :: 0xbf :: rest => rest
  | bytes => bytes

end QmlDoc.Text
