set_option autoImplicit false

namespace QmlDoc.Text

/-- Membership of a code point in an ascending list of closed intervals. The
search stops at the first interval that ends at or after the code point. -/
def inRanges : List (Nat × Nat) → Nat → Bool
  | [], _ => false
  | (first, last) :: later, code =>
      if code ≤ last then first ≤ code else inRanges later code

/-- The white space of Unicode, and the separators from U+001C to U+001F. -/
def blankRanges : List (Nat × Nat) :=
  [(0x9, 0xd), (0x1c, 0x20), (0x85, 0x85), (0xa0, 0xa0), (0x1680, 0x1680), (0x2000, 0x200a),
    (0x2028, 0x2029), (0x202f, 0x202f), (0x205f, 0x205f), (0x3000, 0x3000)]

/-- A white space character; the newline is one of them. -/
def isBlank (c : Char) : Bool :=
  inRanges blankRanges c.toNat

/-- A space or a tab, the two characters that indent a line. -/
def isIndent (c : Char) : Bool :=
  c == ' ' || c == '\t'

/-- The longest run of white space that a text starts with, and what follows it. -/
def spanBlank (text : List Char) : List Char × List Char :=
  (text.takeWhile isBlank, text.dropWhile isBlank)

def trim (text : List Char) : List Char :=
  ((text.dropWhile isBlank).reverse.dropWhile isBlank).reverse

/-- The maximal runs of characters other than white space, in order. -/
def words : List Char → List (List Char)
  | [] => []
  | c :: rest =>
      if isBlank c then words rest
      else
        match rest, words rest with
        | next :: _, word :: later =>
            if isBlank next then [c] :: word :: later else (c :: word) :: later
        | _, later => [c] :: later

/-- Decimal digits beyond ASCII: the general category Nd of Unicode 14.0. -/
def digitRanges : List (Nat × Nat) :=
  [(0x660, 0x669), (0x6f0, 0x6f9), (0x7c0, 0x7c9), (0x966, 0x96f), (0x9e6, 0x9ef), (0xa66, 0xa6f),
    (0xae6, 0xaef), (0xb66, 0xb6f), (0xbe6, 0xbef), (0xc66, 0xc6f), (0xce6, 0xcef),
    (0xd66, 0xd6f), (0xde6, 0xdef), (0xe50, 0xe59), (0xed0, 0xed9), (0xf20, 0xf29),
    (0x1040, 0x1049), (0x1090, 0x1099), (0x17e0, 0x17e9), (0x1810, 0x1819), (0x1946, 0x194f),
    (0x19d0, 0x19d9), (0x1a80, 0x1a89), (0x1a90, 0x1a99), (0x1b50, 0x1b59), (0x1bb0, 0x1bb9),
    (0x1c40, 0x1c49), (0x1c50, 0x1c59), (0xa620, 0xa629), (0xa8d0, 0xa8d9), (0xa900, 0xa909),
    (0xa9d0, 0xa9d9), (0xa9f0, 0xa9f9), (0xaa50, 0xaa59), (0xabf0, 0xabf9), (0xff10, 0xff19),
    (0x104a0, 0x104a9), (0x10d30, 0x10d39), (0x11066, 0x1106f), (0x110f0, 0x110f9),
    (0x11136, 0x1113f), (0x111d0, 0x111d9), (0x112f0, 0x112f9), (0x11450, 0x11459),
    (0x114d0, 0x114d9), (0x11650, 0x11659), (0x116c0, 0x116c9), (0x11730, 0x11739),
    (0x118e0, 0x118e9), (0x11950, 0x11959), (0x11c50, 0x11c59), (0x11d50, 0x11d59),
    (0x11da0, 0x11da9), (0x16a60, 0x16a69), (0x16ac0, 0x16ac9), (0x16b50, 0x16b59),
    (0x1d7ce, 0x1d7ff), (0x1e140, 0x1e149), (0x1e2f0, 0x1e2f9), (0x1e950, 0x1e959),
    (0x1fbf0, 0x1fbf9)]

def isDecimal (c : Char) : Bool :=
  if c.toNat < 0x80 then c.isDigit else inRanges digitRanges c.toNat

/-- The value of a decimal digit. Every range of digits starts with a zero. -/
def digitValue? (c : Char) : Option Nat :=
  if c.isDigit then some (c.toNat - '0'.toNat)
  else
    (digitRanges.find? fun range => range.1 ≤ c.toNat && c.toNat ≤ range.2).map fun range =>
      (c.toNat - range.1) % 10

def hexValue? (c : Char) : Option Nat :=
  if c.isDigit then some (c.toNat - '0'.toNat)
  else if 'a' ≤ c && c ≤ 'f' then some (c.toNat - 'a'.toNat + 10)
  else if 'A' ≤ c && c ≤ 'F' then some (c.toNat - 'A'.toNat + 10)
  else none

def isHexDigit (c : Char) : Bool :=
  (hexValue? c).isSome

def isOctalDigit (c : Char) : Bool :=
  '0' ≤ c && c ≤ '7'

def ofDigits (base : Nat) (digits : List Char) : Nat :=
  digits.foldl (fun value c => base * value + (hexValue? c).getD 0) 0

/-- No number in decimal has more digits. -/
def maxDigits : Nat := 4300

/-- Goes on with a number in decimal. An underscore may stand between two digits. -/
def numberFrom (value : Nat) : List Char → Option Nat
  | [] => some value
  | '_' :: c :: rest => (digitValue? c).bind fun digit => numberFrom (10 * value + digit) rest
  | c :: rest => (digitValue? c).bind fun digit => numberFrom (10 * value + digit) rest

/-- A number in decimal without a sign, with digits of any script. -/
def unsigned? : List Char → Option Nat
  | [] => none
  | c :: rest =>
      if maxDigits < ((c :: rest).filter (· ≠ '_')).length then none
      else (digitValue? c).bind fun digit => numberFrom digit rest

def natural? : List Char → Option Nat
  | '+' :: digits => unsigned? digits
  | '-' :: digits => (unsigned? digits).filter (· = 0)
  | digits => unsigned? digits

def startsWith (text start : String) : Bool :=
  start.toList.isPrefixOf text.toList

def endsWith (text ending : String) : Bool :=
  ending.toList.isSuffixOf text.toList

def contains (part : List Char) : List Char → Bool
  | [] => part.isEmpty
  | c :: rest => part.isPrefixOf (c :: rest) || contains part rest

def replaceChar (c : Char) (sub : String) (text : String) : String :=
  String.ofList (text.toList.flatMap fun d => if d = c then sub.toList else [d])

/-- The part of the line before place `idx`. -/
def lineHead (text : List Char) (idx : Nat) : List Char :=
  ((text.take idx).reverse.takeWhile (· ≠ '\n')).reverse

/-- The row of place `idx`, counted from one. -/
def row (text : List Char) (idx : Nat) : Nat :=
  (text.take idx).count '\n' + 1

/-- The column of place `idx`, counted from one. -/
def column (text : List Char) (idx : Nat) : Nat :=
  (lineHead text idx).length + 1

/-- The line around place `idx`, with the newline before it. The last line of a text
without a newline behind it lacks its last character. -/
def lineAt (text : List Char) (idx : Nat) : List Char :=
  let ahead := text.drop idx
  let stop :=
    if ahead.contains '\n' then text.take idx ++ ahead.takeWhile (· ≠ '\n') else text.dropLast
  stop.drop ((text.take idx).length - (lineHead text idx).length - 1)

/-- The line around place `idx`, and a line below it that points at its column. -/
def excerptAt (text : List Char) (idx : Nat) : List Char :=
  lineAt text idx ++ '\n' :: List.replicate (column text idx - 1) '-' ++ ['^']

end QmlDoc.Text
