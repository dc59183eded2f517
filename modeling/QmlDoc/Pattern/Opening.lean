import QmlDoc.Pattern.Escape
import QmlDoc.Text.Identifier
import QmlDoc.Text.Word

set_option autoImplicit false

namespace QmlDoc.Pattern

inductive Opening
  | numbered (number : Nat)
  | unnumbered
  /-- A group without a number that has flags of its own. -/
  | flagged (flags : Flags)
  | atomic
  | look (behind negated : Bool)
  | given (number : Nat)
  /-- The text of a group again. -/
  | again (number : Nat)
  /-- A comment, or flags for the whole pattern. -/
  | nothing
  deriving DecidableEq, Repr

/-- The first group that is never allowed. -/
def groupLimit : Nat := 1073741823

def openGroup : Parsing Nat := do
  let number := (← get).nextGroup
  modify fun source => { source with widths := source.widths ++ [none] }
  pure number

def closeGroup (number : Nat) (body : Pattern) : Parsing Unit :=
  modify fun source =>
    { source with
      widths := source.widths.set (number - 1) (some (body.width source.groupWidth)) }

def groupName (closing : Char) : Parsing String := do
  let name ← Parsing.nameUntil closing "group name"
  if Text.isIdentifier name then pure (String.ofList name)
  else Parsing.failBefore (.badGroupName (String.ofList name)) (name.length + 1)

def openNamed (name : String) : Parsing Opening := do
  let source ← get
  match source.names.lookup name with
  | some taken =>
      Parsing.failBefore (.groupNameTaken name source.nextGroup taken) (name.length + 1)
  | none =>
      set { source with names := source.names ++ [(name, source.nextGroup)] }
      return .numbered (← openGroup)

def groupOf (name : String) : Parsing Nat := do
  match (← get).names.lookup name with
  | some number => pure number
  | none => Parsing.failBefore (.unknownGroupName name) (name.length + 1)

/-- A number in place of the name of a group. It may be that of a later group. -/
def conditionNumber (name : List Char) : Parsing Nat := do
  let back := name.length + 1
  match Text.natural? name with
  | none => Parsing.failBefore (.badGroupName (String.ofList name)) back
  | some 0 => Parsing.failBefore .badGroupNumber back
  | some number =>
      if groupLimit ≤ number then Parsing.failBefore (.unknownGroup number) back
      else
        let source ← get
        if (source.conditions.lookup number).isNone then
          set { source with conditions := source.conditions ++ [(number, source.pos - back)] }
        pure number

def condition : Parsing Opening := do
  let name ← Parsing.nameUntil ')' "group name"
  let number ←
    if Text.isIdentifier name then groupOf (String.ofList name) else conditionNumber name
  checkLookedAt number
  pure (.given number)

/-- A fault at a symbol that is no flag: a letter is an unknown one. -/
def noFlag {α : Type} (found : Symbol) (wanted : String) : Parsing α :=
  match found with
  | .plain c =>
      Parsing.failBefore (if Text.isLetter c then .unknownFlag else .missing wanted) 1
  | .escaped _ => Parsing.failBefore (.missing wanted) 2

def turnOn (on : Flags) (flag : Flag) : Parsing Flags :=
  if flag = .locale then Parsing.failBefore .localeFlag 0
  else if flag.isScript && on.any fun other => other.isScript && other ≠ flag then
    Parsing.failBefore .flagsClash 0
  else pure (on ++ [flag])

/-- The flags that a group turns on, up to a closing parenthesis, a colon or a minus. -/
def flagsOn : Nat → Flags → Flag → Parsing (Flags × Char)
  | 0, on, _ => pure (on, ')')
  | n + 1, on, flag => do
      let on ← turnOn on flag
      match ← Parsing.symbol with
      | none => Parsing.failBefore (.missing "-, : or )") 0
      | some s =>
          match s, Flag.ofSymbol? s with
          | .plain ')', _ => pure (on, ')')
          | .plain '-', _ => pure (on, '-')
          | .plain ':', _ => pure (on, ':')
          | _, some next => flagsOn n on next
          | _, none => noFlag s "-, : or )"

/-- The flags that a group turns off, up to a colon. -/
def flagsOff : Nat → Flags → Flag → Parsing Flags
  | 0, off, _ => pure off
  | n + 1, off, flag => do
      if flag.isScript then Parsing.failBefore .scriptFlagOff 0
      else
        let off := off ++ [flag]
        match ← Parsing.symbol with
        | none => Parsing.failBefore (.missing ":") 0
        | some s =>
            match s, Flag.ofSymbol? s with
            | .plain ':', _ => pure off
            | _, some next => flagsOff n off next
            | _, none => noFlag s ":"

def firstOff : Parsing Flag := do
  match ← Parsing.symbol with
  | none => Parsing.failBefore (.missing "flag") 0
  | some s =>
      match Flag.ofSymbol? s with
      | some flag => pure flag
      | none => noFlag s "flag"

/-- The flags of a group behind those that it turns on. -/
def groupFlags (on : Flags) (mark : Char) : Parsing Opening := do
  let source ← get
  if on.contains .once then Parsing.failBefore .wholeFlagOn 1
  else
    let off ← if mark = '-' then flagsOff (source.rest.length + 1) [] (← firstOff) else pure []
    if off.contains .once then Parsing.failBefore .wholeFlagOff 1
    else if on.any off.contains then Parsing.failBefore .flagOnAndOff 1
    else pure (.flagged (source.flags.within on off))

/-- Flags that the flag `first` starts. Those for the whole pattern have to come first
in it, which `leading` tells. -/
def flagsFrom (leading : Bool) (start : Nat) (first : Flag) : Parsing Opening := do
  let (on, mark) ← flagsOn ((← get).rest.length + 1) [] first
  if mark ≠ ')' then groupFlags on mark
  else if leading then
    modify fun source => { source with flags := source.flags ++ on }
    pure .nothing
  else
    Parsing.fail .lateFlags start

def skipComment (start : Nat) : Nat → Parsing Unit
  | 0 => pure ()
  | n + 1 => do
      match ← Parsing.symbol with
      | none => Parsing.fail .openComment start
      | some (.plain ')') => pure ()
      | some _ => skipComment start n

/-- What stands behind the letter of the groups with names. -/
def namedOpening : Parsing Opening := do
  if ← Parsing.accept '<' then
    openNamed (← groupName '>')
  else if ← Parsing.accept '=' then
    let name ← groupName ')'
    let number ← groupOf name
    checkAgain number (name.length + 1)
    pure (.again number)
  else
    match ← Parsing.symbol with
    | none => Parsing.failBefore .unexpectedEnd 0
    | some s =>
        Parsing.failBefore (.unknownExtension (String.ofList ('P' :: s.text)))
          (s.text.length + 2)

def lookBehind : Parsing Opening := do
  match ← Parsing.symbol with
  | none => Parsing.failBefore .unexpectedEnd 0
  | some (.plain '=') => pure (.look true false)
  | some (.plain '!') => pure (.look true true)
  | some s =>
      Parsing.failBefore (.unknownExtension (String.ofList ('<' :: s.text)))
        (s.text.length + 2)

/-- What stands behind an opening parenthesis at `start` and a question mark. -/
def extension (leading : Bool) (start : Nat) : Parsing Opening := do
  match ← Parsing.symbol with
  | none => Parsing.failBefore .unexpectedEnd 0
  | some (.plain 'P') => namedOpening
  | some (.plain ':') => pure .unnumbered
  | some (.plain '#') =>
      skipComment start ((← get).rest.length + 1)
      pure .nothing
  | some (.plain '=') => pure (.look false false)
  | some (.plain '!') => pure (.look false true)
  | some (.plain '<') => lookBehind
  | some (.plain '(') => condition
  | some (.plain '>') => pure .atomic
  | some (.plain '-') => groupFlags [] '-'
  | some s =>
      match Flag.ofSymbol? s with
      | some flag => flagsFrom leading start flag
      | none =>
          Parsing.failBefore (.unknownExtension (String.ofList s.text)) (s.text.length + 1)

def opening (leading : Bool) (start : Nat) : Parsing Opening := do
  if ← Parsing.accept '?' then extension leading start
  else return .numbered (← openGroup)

end QmlDoc.Pattern
