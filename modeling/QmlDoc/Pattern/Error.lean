import QmlDoc.Pattern.Basic
import QmlDoc.Text.Quoted

set_option autoImplicit false

namespace QmlDoc.Pattern

inductive Fault
  | nothingToRepeat
  | multipleRepeat
  | repeatBounds
  | repeatTooLarge
  | longNumber (digits : Nat)
  | openGroup
  | openSet
  | openComment
  | strayParenthesis
  | endInEscape
  | badEscape (escape : String)
  | incompleteEscape (escape : String)
  | octalTooLarge (escape : String)
  | unknownCharName (name : String)
  | badRange (first last : String)
  | unknownExtension (mark : String)
  | unexpectedEnd
  | missing (what : String)
  /-- A name lacks the character that closes it. -/
  | openName (closing : Char)
  | badGroupName (name : String)
  | badGroupNumber
  | unknownGroup (number : Nat)
  | unknownGroupName (name : String)
  | groupNameTaken (name : String) (number taken : Nat)
  | groupNotClosed
  /-- A group of a look behind is used in the same look behind. -/
  | groupLookedAt
  | manyBranches
  | unknownFlag
  | localeFlag
  | flagsClash
  | lateFlags
  | wholeFlagOn
  | wholeFlagOff
  | scriptFlagOff
  | flagOnAndOff
  | asciiAndUnicode
  | widthNotFixed
  | widthTooLarge
  | repeatRefused (preference : Preference)
  /-- A group was left before the place where it was entered last. -/
  | wrongSpan
  deriving DecidableEq, Repr

/-- A fault, with its position in the text where it has one. -/
structure Error where
  fault : Fault
  pos : Option Nat
  deriving DecidableEq, Repr

def Preference.describe : Preference → String
  | greedy => "MAX_REPEAT"
  | lazy => "MIN_REPEAT"
  | possessive => "POSSESSIVE_REPEAT"

def Fault.describe : Fault → String
  | nothingToRepeat => "nothing to repeat"
  | multipleRepeat => "multiple repeat"
  | repeatBounds => "min repeat greater than max repeat"
  | repeatTooLarge => "the repetition number is too large"
  | longNumber digits =>
      "Exceeds the limit (4300 digits) for integer string conversion: value has " ++
        toString digits ++ " digits; use sys.set_int_max_str_digits() to increase the limit"
  | openGroup => "missing ), unterminated subpattern"
  | openSet => "unterminated character set"
  | openComment => "missing ), unterminated comment"
  | strayParenthesis => "unbalanced parenthesis"
  | endInEscape => "bad escape (end of pattern)"
  | badEscape escape => "bad escape " ++ escape
  | incompleteEscape escape => "incomplete escape " ++ escape
  | octalTooLarge escape => "octal escape value " ++ escape ++ " outside of range 0-0o377"
  | unknownCharName name => "undefined character name " ++ Text.quote name
  | badRange first last => "bad character range " ++ first ++ "-" ++ last
  | unknownExtension mark => "unknown extension ?" ++ mark
  | unexpectedEnd => "unexpected end of pattern"
  | missing what => "missing " ++ what
  | openName closing => "missing " ++ String.singleton closing ++ ", unterminated name"
  | badGroupName name => "bad character in group name " ++ Text.quote name
  | badGroupNumber => "bad group number"
  | unknownGroup number => "invalid group reference " ++ toString number
  | unknownGroupName name => "unknown group name " ++ Text.quote name
  | groupNameTaken name number taken =>
      "redefinition of group name " ++ Text.quote name ++ " as group " ++ toString number ++
        "; was group " ++ toString taken
  | groupNotClosed => "cannot refer to an open group"
  | groupLookedAt => "cannot refer to group defined in the same lookbehind subpattern"
  | manyBranches => "conditional backref with more than two branches"
  | unknownFlag => "unknown flag"
  | localeFlag => "bad inline flags: cannot use 'L' flag with a str pattern"
  | flagsClash => "bad inline flags: flags 'a', 'u' and 'L' are incompatible"
  | lateFlags => "global flags not at the start of the expression"
  | wholeFlagOn => "bad inline flags: cannot turn on global flag"
  | wholeFlagOff => "bad inline flags: cannot turn off global flag"
  | scriptFlagOff => "bad inline flags: cannot turn off flags 'a', 'u' and 'L'"
  | flagOnAndOff => "bad inline flags: flag turned on and off"
  | asciiAndUnicode => "ASCII and UNICODE flags are incompatible"
  | widthNotFixed => "look-behind requires fixed-width pattern"
  | widthTooLarge => "looks too much behind"
  | repeatRefused preference =>
      "internal: unsupported template operator " ++ preference.describe
  | wrongSpan =>
      "The span of capturing group is wrong, please report a bug for the re module."

def Error.message (error : Error) : String :=
  match error.pos with
  | some pos => error.fault.describe ++ " at position " ++ toString pos
  | none => error.fault.describe

end QmlDoc.Pattern
