import QmlDoc.Proofs.ArgumentGrammar

set_option autoImplicit false

namespace QmlDoc

open Token (codeOf)

theorem Reader.Finds.unique {r s t : Reader} {first second : Token} (finds : r.Finds first s)
    (again : r.Finds second t) : first = second ∧ s = t := by
  have same := (Reading.code_eq_ok_iff.mpr finds).symm.trans (Reading.code_eq_ok_iff.mpr again)
  exact EStateM.Result.ok.inj same

theorem Reader.FindsAll.unique {r s t : Reader} {tokens : List Token}
    (found : r.FindsAll tokens s) (again : r.FindsAll tokens t) : s = t := by
  induction tokens generalizing r with
  | nil => exact Eq.trans (Eq.symm found) again
  | cons token later ih =>
      obtain ⟨u, finds, rest⟩ := found
      obtain ⟨v, finds', rest'⟩ := again
      obtain ⟨-, rfl⟩ := finds.unique finds'
      exact ih rest rest'

/-- Where more tokens are found, reading gets farther. -/
theorem Reader.FindsAll.idx_lt {r s t : Reader} {front later : List Token} {token : Token}
    (found : r.FindsAll front s) (more : r.FindsAll (front ++ token :: later) t) :
    s.idx < t.idx := by
  obtain ⟨u, atFront, v, finds, toEnd⟩ := findsAll_append.mp more
  obtain rfl := found.unique atFront
  obtain ⟨read, -, place⟩ := finds.passes
  obtain ⟨passed, -, farther⟩ := toEnd.reaches
  omega

namespace Argument

open Reading

/-- A default value with the equals sign before it. -/
structure WrittenValue where
  equals : Token
  tokens : List Token
  isEquals : equals.kind = .char ∧ equals.value = "="

/-- A parameter as it is written: a name, perhaps with a default value. -/
structure WrittenParameter where
  name : Token
  value : Option WrittenValue
  nameKind : name.kind = .element

namespace WrittenParameter

def tokens (parameter : WrittenParameter) : List Token :=
  parameter.name :: (parameter.value.map fun value => value.equals :: value.tokens).getD []

/-- The default value, if there is one, is made of units, comments left aside. -/
def IsFlat (parameter : WrittenParameter) : Prop :=
  ∀ value ∈ parameter.value, ∃ units, codeOf value.tokens = unitTokens units

end WrittenParameter

/-- The tokens are the parameters with commas between them, up to the closing parenthesis. -/
def ParameterList : List WrittenParameter → List Token → Prop :=
  Listed WrittenParameter.tokens fun _ stop => stop.kind = .char

/-- A comma or a closing parenthesis outside of names, strings, blocks and arrays. -/
def isMark (token : Token) : Bool :=
  token.kind = .char && (token.value = ")" || token.value = ",")

theorem isMark_iff {token : Token} : isMark token = true ↔ token.kind = .char ∧ Parts token := by
  simp [isMark, Parts]

theorem isMark_of_kind {token : Token} (otherKind : token.kind ≠ .char) : isMark token = false := by
  simp [isMark, otherKind]

theorem isMark_of_value {token : Token} (free : ¬Parts token) : isMark token = false := by
  rw [← Bool.not_eq_true, isMark_iff]
  exact fun mark => free mark.2

theorem ValueUnit.isMark_eq_false (unit : ValueUnit) :
    ∀ token ∈ unit.tokens, isMark token = false := by
  intro token member
  cases unit with
  | block start stop isValue opens closes =>
      rcases List.mem_pair.mp member with rfl | rfl
      · exact isMark_of_value (by simp [Parts, opens])
      · exact isMark_of_kind (by simp [closes])
  | array start stop isValue opens closes =>
      rcases List.mem_pair.mp member with rfl | rfl
      · exact isMark_of_value (by simp [Parts, opens])
      · exact isMark_of_kind (by simp [closes])
  | single only isValue free =>
      obtain rfl := List.mem_singleton.mp member
      simp only [List.mem_cons, List.not_mem_nil, or_false, not_or] at free
      exact isMark_of_value (by simp [Parts, free])

theorem Item.isMark_eq_false (item : Item) : ∀ token ∈ item.tokens, isMark token = false := by
  obtain ⟨⟨dots, name, dotsKind, nameKind⟩, ending⟩ := item
  intro token member
  rcases List.mem_append.mp member with inFront | inEnding
  · rcases List.mem_append.mp inFront with isDots | isName
    · have kindIs := dotsKind token (Option.mem_toList.mp isDots)
      exact isMark_of_kind (by simp [kindIs])
    · obtain rfl := List.mem_singleton.mp isName
      exact isMark_of_kind (by simp [nameKind])
  · cases ending with
    | bare => cases inEnding
    | typed colon type isColon typeKind =>
        rcases List.mem_pair.mp inEnding with rfl | rfl
        · exact isMark_of_value (by simp [Parts, isColon.2])
        · exact isMark_of_kind (by simp [typeKind])
    | valued equals units isEquals =>
        rcases List.mem_cons.mp inEnding with rfl | inUnits
        · exact isMark_of_value (by simp [Parts, isEquals.2])
        · obtain ⟨unit, -, inUnit⟩ := List.mem_flatMap.mp inUnits
          exact unit.isMark_eq_false token inUnit

/-- Each mark in a list of items ends one of them. -/
theorem Listed.countP_isMark_le {items : List Item} : ∀ {tokens : List Token}, items ≠ [] →
    Listed Item.tokens Item.EndsBefore items tokens → tokens.countP isMark ≤ items.length := by
  induction items with
  | nil => exact fun nonempty => absurd rfl nonempty
  | cons item later ih =>
      intro tokens _ listed
      have none : item.tokens.countP isMark = 0 :=
        List.countP_eq_zero.mpr fun token member => by simp [item.isMark_eq_false token member]
      cases later with
      | nil =>
          obtain ⟨close, -, -, rfl⟩ := listed
          have most := List.countP_le_length (p := isMark) (l := [close])
          rw [List.countP_append, none]
          simpa using most
      | cons next later =>
          obtain ⟨comma, back, -, -, rfl, rest⟩ := listed
          have most := ih (by simp) rest
          rw [List.countP_append, none, List.countP_cons, List.length_cons]
          split <;> omega

theorem codeOf_tokens (parameter : WrittenParameter) :
    codeOf parameter.tokens = parameter.name :: codeOf
      ((parameter.value.map fun value => value.equals :: value.tokens).getD []) := by
  apply Token.codeOf_code
  rw [Token.isComment, parameter.nameKind]
  rfl

theorem isComment_of_char {token : Token} (kindIs : token.kind = .char) :
    token.isComment = false := by
  rw [Token.isComment, kindIs]
  rfl

/-- The code of a list of parameters: that of the first one, the mark behind it and the rest. -/
theorem ParameterList.codeOf_last {parameter : WrittenParameter} {tokens : List Token}
    (listed : ParameterList [parameter] tokens) :
    ∃ close : Token, close.kind = .char ∧ close.value = ")" ∧
      codeOf tokens = codeOf parameter.tokens ++ [close] := by
  obtain ⟨close, closeKind, isClose, rfl⟩ := listed
  refine ⟨close, closeKind, isClose, ?_⟩
  rw [Token.codeOf_append, Token.codeOf_code _ (isComment_of_char closeKind), Token.codeOf_nil]

theorem ParameterList.codeOf_more {parameter next : WrittenParameter}
    {later : List WrittenParameter} {tokens : List Token}
    (listed : ParameterList (parameter :: next :: later) tokens) :
    ∃ (comma : Token) (back : List Token), comma.kind = .char ∧ comma.value = "," ∧
      ParameterList (next :: later) back ∧
      codeOf tokens = codeOf parameter.tokens ++ comma :: codeOf back := by
  obtain ⟨comma, back, commaKind, isComma, rfl, rest⟩ := listed
  refine ⟨comma, back, commaKind, isComma, rest, ?_⟩
  rw [Token.codeOf_append, Token.codeOf_code _ (isComment_of_char commaKind)]

/-- Each parameter has a mark behind it. -/
theorem ParameterList.length_le_countP {parameters : List WrittenParameter} :
    ∀ {tokens : List Token}, ParameterList parameters tokens →
    parameters.length ≤ (codeOf tokens).countP isMark := by
  induction parameters with
  | nil => exact fun _ => Nat.zero_le _
  | cons parameter later ih =>
      intro tokens listed
      cases later with
      | nil =>
          obtain ⟨close, closeKind, isClose, code⟩ := listed.codeOf_last
          have mark : isMark close = true := isMark_iff.mpr ⟨closeKind, Or.inl isClose⟩
          rw [code, List.countP_append, List.countP_cons_of_pos mark]
          simp
      | cons next later =>
          obtain ⟨comma, back, commaKind, isComma, rest, code⟩ := listed.codeOf_more
          have mark : isMark comma = true := isMark_iff.mpr ⟨commaKind, Or.inr isComma⟩
          have fewer := ih rest
          rw [code, List.countP_append, List.countP_cons_of_pos mark, List.length_cons]
          omega

/-- The item that starts at a parameter ends with it, or at a mark inside of it. -/
theorem cut_cases {parameter : WrittenParameter} {item : Item} {stop mark : Token}
    {behind back : List Token} (isMark : isMark mark = true)
    (same : item.tokens ++ stop :: behind = codeOf parameter.tokens ++ mark :: back) :
    (item.tokens = codeOf parameter.tokens ∧ stop = mark ∧ behind = back) ∨
      ∃ inner, codeOf parameter.tokens = item.tokens ++ stop :: inner ∧
        behind = inner ++ mark :: back := by
  rcases List.append_eq_append_iff.mp same with ⟨middle, whole, rest⟩ | ⟨middle, whole, rest⟩
  · cases middle with
    | nil =>
        obtain ⟨rfl, rfl⟩ := List.cons.inj rest
        exact Or.inl ⟨by rw [whole, List.append_nil], rfl, rfl⟩
    | cons first inner =>
        obtain ⟨rfl, rfl⟩ := List.cons.inj rest
        exact Or.inr ⟨inner, whole, rfl⟩
  · cases middle with
    | nil =>
        obtain ⟨rfl, rfl⟩ := List.cons.inj rest
        exact Or.inl ⟨by rw [whole, List.append_nil], rfl, rfl⟩
    | cons first inner =>
        obtain ⟨rfl, rfl⟩ := List.cons.inj rest
        have inItem := item.isMark_eq_false mark (by rw [whole]; simp)
        rw [inItem] at isMark
        cases isMark

/-- An item that has the tokens of a parameter with a default value, up to some place inside of
it, has a default value of its own. -/
theorem units_of_tokens {parameter : WrittenParameter} {value : WrittenValue} {item : Item}
    {inner : List Token} (isValue : parameter.value = some value)
    (inside : ∀ token ∈ inner.head?, token.value ≠ "=")
    (same : codeOf parameter.tokens = item.tokens ++ inner) :
    ∃ units, codeOf value.tokens = unitTokens units ++ inner := by
  obtain ⟨⟨dots, name, dotsKind, nameKind⟩, ending⟩ := item
  have equalsCode := isComment_of_char value.isEquals.1
  rw [codeOf_tokens, isValue, Option.map_some, Option.getD_some, Token.codeOf_code _ equalsCode]
    at same
  cases dots with
  | some dots =>
      have kindIs := congrArg Token.kind (List.cons.inj same).1
      have isDots : dots.kind = .ellipses := dotsKind dots rfl
      rw [parameter.nameKind, isDots] at kindIs
      cases kindIs
  | none =>
      have rest : value.equals :: codeOf value.tokens = ending.tokens ++ inner :=
        (List.cons.inj same).2
      cases ending with
      | bare =>
          have head : inner.head? = some value.equals := by
            rw [← List.nil_append inner, show [] ++ inner = ItemEnd.bare.tokens ++ inner from rfl,
              ← rest, List.head?_cons]
          exact absurd value.isEquals.2 (inside _ head)
      | typed colon type isColon typeKind =>
          have valueIs := congrArg Token.value (List.cons.inj rest).1
          rw [value.isEquals.2, isColon.2] at valueIs
          exact absurd valueIs (by decide)
      | valued equals units isEquals => exact ⟨units, (List.cons.inj rest).2⟩

theorem isFlat_of_tokens {parameter : WrittenParameter} {item : Item}
    (same : item.tokens = codeOf parameter.tokens) : parameter.IsFlat := by
  intro value isValue
  have whole : codeOf parameter.tokens = item.tokens ++ [] := by rw [same, List.append_nil]
  obtain ⟨units, code⟩ := units_of_tokens isValue (by simp) whole
  exact ⟨units, by rw [code, List.append_nil]⟩

theorem not_listed_nil {parameter : WrittenParameter} {mark : Token} {back : List Token} :
    ¬Listed Item.tokens Item.EndsBefore [] (codeOf parameter.tokens ++ mark :: back) := by
  rintro ⟨close, -, -, same⟩
  have length := congrArg List.length same
  rw [codeOf_tokens] at length
  simp at length

/-- If there are no more items than parameters, then each item has the tokens of a parameter. -/
theorem ParameterList.isFlat_of_length_le {parameters : List WrittenParameter} :
    ∀ {tokens : List Token} {items : List Item}, ParameterList parameters tokens →
    Listed Item.tokens Item.EndsBefore items (codeOf tokens) →
    items.length ≤ parameters.length → ∀ parameter ∈ parameters, parameter.IsFlat := by
  induction parameters with
  | nil => exact fun _ _ _ parameter member => nomatch member
  | cons parameter later ih =>
      intro tokens items listed read most
      cases later with
      | nil =>
          obtain ⟨close, closeKind, isClose, code⟩ := listed.codeOf_last
          rw [code] at read
          match items with
          | [] => exact absurd read not_listed_nil
          | [item] =>
              obtain ⟨stop, -, -, same⟩ := read
              have whole : codeOf parameter.tokens = item.tokens :=
                (List.append_inj' same rfl).1
              intro each member
              obtain rfl := List.mem_singleton.mp member
              exact isFlat_of_tokens whole.symm
          | _ :: _ :: _ => simp at most
      | cons next later =>
          obtain ⟨comma, back, commaKind, isComma, rest, code⟩ := listed.codeOf_more
          have isMark : isMark comma = true := isMark_iff.mpr ⟨commaKind, Or.inr isComma⟩
          rw [code] at read
          match items with
          | [] => exact absurd read not_listed_nil
          | [item] =>
              have marks := Listed.countP_isMark_le (by simp) read
              have needed := listed.length_le_countP
              rw [code] at needed
              simp at marks needed
              omega
          | item :: nextItem :: others =>
              obtain ⟨stop, behind, -, -, same, readBehind⟩ := read
              simp only [List.length_cons] at most
              rcases cut_cases isMark same.symm with ⟨whole, -, rfl⟩ | ⟨inner, -, rfl⟩
              · intro each member
                rcases List.mem_cons.mp member with rfl | member
                · exact isFlat_of_tokens whole
                · exact ih rest readBehind (by simp only [List.length_cons]; omega) each member
              · -- The comma and all marks behind it are left for the other items.
                have marks := Listed.countP_isMark_le (by simp) readBehind
                have needed := ParameterList.length_le_countP rest
                rw [List.countP_append, List.countP_cons_of_pos isMark] at marks
                simp only [List.length_cons] at marks needed
                omega

/-- A parameter whose default value is flat is an item. -/
theorem item_of_isFlat {parameter : WrittenParameter} (flat : parameter.IsFlat) :
    ∃ item : Item, item.tokens = codeOf parameter.tokens ∧
      item.argument.name = parameter.name.value := by
  let front : ItemFront := ⟨none, parameter.name, by simp, parameter.nameKind⟩
  rw [codeOf_tokens]
  cases isValue : parameter.value with
  | none => exact ⟨⟨front, .bare⟩, rfl, rfl⟩
  | some value =>
      obtain ⟨units, code⟩ := flat value isValue
      refine ⟨⟨front, .valued value.equals units value.isEquals⟩, ?_, rfl⟩
      rw [Option.map_some, Option.getD_some,
        Token.codeOf_code _ (isComment_of_char value.isEquals.1), code]
      rfl

theorem ParameterList.listed_of_isFlat {parameters : List WrittenParameter} :
    ∀ {tokens : List Token}, ParameterList parameters tokens →
    (∀ parameter ∈ parameters, parameter.IsFlat) →
    ∃ items, Listed Item.tokens Item.EndsBefore items (codeOf tokens) ∧
      (items.map Item.argument).map Argument.name =
        parameters.map fun parameter => parameter.name.value := by
  induction parameters with
  | nil =>
      rintro tokens ⟨close, closeKind, isClose, rfl⟩ _
      rw [Token.codeOf_code _ (isComment_of_char closeKind), Token.codeOf_nil]
      exact ⟨[], ⟨close, closeKind, isClose, rfl⟩, rfl⟩
  | cons parameter later ih =>
      intro tokens listed flat
      obtain ⟨item, spelled, named⟩ := item_of_isFlat (flat parameter (by simp))
      cases later with
      | nil =>
          obtain ⟨close, closeKind, isClose, code⟩ := listed.codeOf_last
          have ends : item.EndsBefore close := by
            rw [Item.EndsBefore, closeKind]
            exact item.ending.allows_char
          exact ⟨[item], ⟨close, ends, isClose, by rw [code, spelled]⟩, by simp [named]⟩
      | cons next later =>
          obtain ⟨comma, back, commaKind, isComma, rest, code⟩ := listed.codeOf_more
          have ends : item.EndsBefore comma := by
            rw [Item.EndsBefore, commaKind]
            exact item.ending.allows_char
          obtain ⟨items, read, names⟩ :=
            ih rest fun each member => flat each (List.mem_cons_of_mem _ member)
          cases items with
          | nil => cases names
          | cons nextItem others =>
              refine ⟨item :: nextItem :: others, ?_, ?_⟩
              · exact ⟨comma, codeOf back, ends, isComma, by rw [code, spelled], read⟩
              · rw [List.map_cons, List.map_cons, names, named]
                rfl

def closingOf (value : String) : Option String :=
  if value = "(" then some ")" else if value = "[" then some "]"
  else if value = "\x7b" then some "\x7d" else none

/-- Whether the tokens close what is open, the innermost first, and all that they open themselves,
and have no comma outside of that. -/
def closesAll : List String → List Token → Bool
  | expected, [] => expected.isEmpty
  | expected, token :: rest =>
      match closingOf token.value with
      | some close => closesAll (close :: expected) rest
      | none =>
          if token.value = ")" || token.value = "]" || token.value = "\x7d" then
            expected.head? = some token.value && closesAll expected.tail rest
          else !(token.value = "," && expected.isEmpty) && closesAll expected rest

/-- Some tokens that are balanced in parentheses, brackets and braces, with no comma outside of
them. -/
def IsExpression (tokens : List Token) : Prop :=
  tokens ≠ [] ∧ closesAll [] (codeOf tokens) = true

instance (tokens : List Token) : Decidable (IsExpression tokens) :=
  inferInstanceAs (Decidable (_ ∧ _))

/-- What is open gets closed. -/
theorem exists_of_closesAll {tokens : List Token} : ∀ {expected : List String},
    closesAll expected tokens = true → ∀ mark ∈ expected, ∃ token ∈ tokens, token.value = mark := by
  induction tokens with
  | nil =>
      intro expected closes mark member
      rw [closesAll, List.isEmpty_iff] at closes
      rw [closes] at member
      cases member
  | cons token rest ih =>
      intro expected closes mark member
      have later (others : List String) (restCloses : closesAll others rest = true)
          (inOthers : mark ∈ others) : ∃ each ∈ token :: rest, each.value = mark := by
        obtain ⟨each, inRest, isEach⟩ := ih restCloses mark inOthers
        exact ⟨each, List.mem_cons_of_mem _ inRest, isEach⟩
      rw [closesAll] at closes
      split at closes
      · exact later _ closes (List.mem_cons_of_mem _ member)
      · split at closes
        · rw [Bool.and_eq_true, decide_eq_true_iff] at closes
          obtain ⟨outer, rfl⟩ := List.head?_eq_some_iff.mp closes.1
          rcases List.mem_cons.mp member with rfl | inOuter
          · exact ⟨token, by simp, rfl⟩
          · exact later _ closes.2 inOuter
        · rw [Bool.and_eq_true] at closes
          exact later _ closes.2 member

/-- Without a closing parenthesis there is no opening one either. -/
theorem no_opening_of_closesAll {tokens : List Token} : ∀ {expected : List String},
    closesAll expected tokens = true → (∀ token ∈ tokens, token.value ≠ ")") →
    ∀ token ∈ tokens, token.value ≠ "(" := by
  induction tokens with
  | nil => exact fun _ _ token member => nomatch member
  | cons token rest ih =>
      intro expected closes noClose
      have noneLater : ∀ each ∈ rest, each.value ≠ ")" :=
        fun each member => noClose each (List.mem_cons_of_mem _ member)
      rw [closesAll] at closes
      have here : token.value ≠ "(" := by
        intro opens
        rw [opens] at closes
        obtain ⟨each, member, isClose⟩ := exists_of_closesAll closes ")" (by simp)
        exact noneLater each member isClose
      have there : ∃ others, closesAll others rest = true := by
        split at closes
        · exact ⟨_, closes⟩
        · split at closes <;> rw [Bool.and_eq_true] at closes <;> exact ⟨_, closes.2⟩
      obtain ⟨others, restCloses⟩ := there
      intro each member
      rcases List.mem_cons.mp member with rfl | inRest
      · exact here
      · exact ih restCloses noneLater each inRest

/-- The ends of blocks and arrays are spelled as such, and a closing parenthesis is a
character. -/
def HasMarkForm (token : Token) : Prop :=
  (token.value = ")" → token.kind = .char) ∧ (token.kind = .blockEnd → token.value = "\x7d") ∧
    (token.kind = .arrayEnd → token.value = "]")

instance (token : Token) : Decidable (HasMarkForm token) :=
  inferInstanceAs (Decidable (_ ∧ _))

/-- A comma behind units without parentheses stands outside of all brackets and braces. -/
theorem closesAll_units {units : List ValueUnit} {comma : Token} {rest : List Token}
    (isComma : comma.value = ",") (noParen : ∀ token ∈ unitTokens units, token.value ≠ "(")
    (forms : ∀ token ∈ unitTokens units, HasMarkForm token) :
    closesAll [] (unitTokens units ++ comma :: rest) = false := by
  induction units with
  | nil =>
      show closesAll [] (comma :: rest) = false
      simp [closesAll, closingOf, isComma]
  | cons unit units ih =>
      have shorter : closesAll [] (unitTokens units ++ comma :: rest) = false := by
        apply ih
        · exact fun token member => noParen token (List.mem_append_right _ member)
        · exact fun token member => forms token (List.mem_append_right _ member)
      have here : ∀ token ∈ unit.tokens, token ∈ unitTokens (unit :: units) :=
        fun token member => List.mem_append_left _ member
      rw [unitTokens, List.flatMap_cons, List.append_assoc]
      cases unit with
      | block start stop isValue opens closes =>
          have spelled := (forms stop (here stop (by simp [ValueUnit.tokens]))).2.1 closes
          show closesAll [] (start :: stop :: (unitTokens units ++ comma :: rest)) = false
          simp [closesAll, closingOf, opens, spelled, shorter]
      | array start stop isValue opens closes =>
          have spelled := (forms stop (here stop (by simp [ValueUnit.tokens]))).2.2 closes
          show closesAll [] (start :: stop :: (unitTokens units ++ comma :: rest)) = false
          simp [closesAll, closingOf, opens, spelled, shorter]
      | single token isValue free =>
          have notOpen := noParen token (here token (by simp [ValueUnit.tokens]))
          simp only [List.mem_cons, List.not_mem_nil, or_false, not_or] at free
          show closesAll [] (token :: (unitTokens units ++ comma :: rest)) = false
          simp [closesAll, closingOf, free, notOpen, shorter]

theorem Item.tokens_ne_nil (item : Item) : item.tokens ≠ [] := by
  simp [tokens, ItemFront.tokens]

theorem Listed.two_le_length {item : Item} {later : List Item} {tokens : List Token}
    (listed : Listed Item.tokens Item.EndsBefore (item :: later) tokens) : 2 ≤ tokens.length := by
  have some := List.length_pos_iff.mpr item.tokens_ne_nil
  cases later with
  | nil =>
      obtain ⟨close, -, -, rfl⟩ := listed
      rw [List.length_append, List.length_singleton]
      omega
  | cons next later =>
      obtain ⟨comma, back, -, -, rfl, -⟩ := listed
      rw [List.length_append, List.length_cons]
      omega

/-- The default value, if there is one, is an expression without parentheses. -/
def WrittenParameter.IsParenless (parameter : WrittenParameter) : Prop :=
  ∀ value ∈ parameter.value, closesAll [] (codeOf value.tokens) = true ∧
    ∀ token ∈ codeOf value.tokens, token.value ≠ "(" ∧ HasMarkForm token

/-- No item ends at a comma inside of an expression without parentheses. -/
theorem not_cut_of_isParenless {parameter : WrittenParameter} {item : Item} {stop : Token}
    {inner : List Token} (isComma : stop.value = ",") (parenless : parameter.IsParenless) :
    codeOf parameter.tokens ≠ item.tokens ++ stop :: inner := by
  intro same
  cases isValue : parameter.value with
  | none =>
      have length := congrArg List.length same
      have some := List.length_pos_iff.mpr item.tokens_ne_nil
      rw [codeOf_tokens, isValue, List.length_append] at length
      simp at length
      omega
  | some value =>
      obtain ⟨units, code⟩ := units_of_tokens isValue (by simp [isComma]) same
      obtain ⟨closes, forms⟩ := parenless value isValue
      have within : ∀ token ∈ unitTokens units, token ∈ codeOf value.tokens := by
        intro token member
        rw [code]
        exact List.mem_append_left _ member
      rw [code, closesAll_units isComma (fun token member => (forms token (within token member)).1)
        fun token member => (forms token (within token member)).2] at closes
      cases closes

theorem ParameterList.length_le_of_isParenless {parameters : List WrittenParameter} :
    ∀ {tokens : List Token} {items : List Item}, ParameterList parameters tokens →
    Listed Item.tokens Item.EndsBefore items (codeOf tokens) →
    (∀ parameter ∈ parameters, parameter.IsParenless) →
    items.length ≤ parameters.length := by
  induction parameters with
  | nil =>
      rintro tokens items ⟨close, closeKind, isClose, rfl⟩ read _
      rw [Token.codeOf_code _ (isComment_of_char closeKind), Token.codeOf_nil] at read
      cases items with
      | nil => exact Nat.le_refl _
      | cons item later => exact absurd read.two_le_length (by simp)
  | cons parameter later ih =>
      intro tokens items listed read parenless
      match items with
      | [] | [_] => simp
      | item :: nextItem :: others =>
          obtain ⟨stop, behind, -, stopIs, same, readBehind⟩ := read
          have notCut (inner : List Token) :
              codeOf parameter.tokens ≠ item.tokens ++ stop :: inner :=
            not_cut_of_isParenless stopIs (parenless parameter (by simp))
          cases later with
          | nil =>
              obtain ⟨close, closeKind, isClose, code⟩ := listed.codeOf_last
              have isMark : isMark close = true := isMark_iff.mpr ⟨closeKind, Or.inl isClose⟩
              rw [code] at same
              rcases cut_cases isMark same.symm with ⟨-, rfl, -⟩ | ⟨inner, cut, -⟩
              · rw [stopIs] at isClose
                exact absurd isClose (by decide)
              · exact absurd cut (notCut inner)
          | cons next later =>
              obtain ⟨comma, back, commaKind, isComma, rest, code⟩ := listed.codeOf_more
              have isMark : isMark comma = true := isMark_iff.mpr ⟨commaKind, Or.inr isComma⟩
              rw [code] at same
              rcases cut_cases isMark same.symm with ⟨-, -, rfl⟩ | ⟨inner, cut, -⟩
              · have fewer := ih rest readBehind fun each member =>
                  parenless each (List.mem_cons_of_mem _ member)
                simp only [List.length_cons] at fewer ⊢
                omega
              · exact absurd cut (notCut inner)

/-- A closing parenthesis ends every list of items. -/
theorem Listed.nil_of_close {items : List Item} : ∀ {tokens front back : List Token}
    {close : Token}, Listed Item.tokens Item.EndsBefore items tokens → close.kind = .char →
    close.value = ")" → tokens = front ++ close :: back → back = [] := by
  induction items with
  | nil =>
      rintro tokens front back close ⟨only, -, -, rfl⟩ _ _ same
      have length := congrArg List.length same
      simp only [List.length_append, List.length_cons, List.length_nil] at length
      exact List.length_eq_zero_iff.mp (by omega)
  | cons item later ih =>
      intro tokens front back close listed closeKind isClose same
      have isMark : isMark close = true := isMark_iff.mpr ⟨closeKind, Or.inl isClose⟩
      have notInside (inner : List Token) : item.tokens ≠ front ++ close :: inner := by
        intro inside
        rw [item.isMark_eq_false close (by rw [inside]; simp)] at isMark
        cases isMark
      cases later with
      | nil =>
          obtain ⟨stop, -, -, rfl⟩ := listed
          rcases List.append_eq_append_iff.mp same with ⟨middle, -, rest⟩ | ⟨middle, whole, rest⟩
          · have length := congrArg List.length rest
            simp only [List.length_append, List.length_cons, List.length_nil] at length
            exact List.length_eq_zero_iff.mp (by omega)
          · cases middle with
            | nil => exact (List.cons.inj rest).2
            | cons first inner =>
                obtain ⟨rfl, -⟩ := List.cons.inj rest
                exact absurd whole (notInside inner)
      | cons next later =>
          obtain ⟨comma, behind, -, isComma, rfl, readBehind⟩ := listed
          have notComma : close ≠ comma := by
            rintro rfl
            rw [isComma] at isClose
            exact absurd isClose (by decide)
          rcases List.append_eq_append_iff.mp same with ⟨middle, -, rest⟩ | ⟨middle, whole, rest⟩
          · cases middle with
            | nil => exact absurd (List.cons.inj rest).1.symm notComma
            | cons first inner => exact ih readBehind closeKind isClose (List.cons.inj rest).2
          · cases middle with
            | nil => exact absurd (List.cons.inj rest).1 notComma
            | cons first inner =>
                obtain ⟨rfl, -⟩ := List.cons.inj rest
                exact absurd whole (notInside inner)

theorem ParameterList.exists_close {parameters : List WrittenParameter} :
    ∀ {tokens : List Token}, ParameterList parameters tokens →
    ∃ front close, tokens = front ++ [close] ∧ close.kind = .char ∧ close.value = ")" := by
  induction parameters with
  | nil =>
      rintro tokens ⟨close, closeKind, isClose, rfl⟩
      exact ⟨[], close, rfl, closeKind, isClose⟩
  | cons parameter later ih =>
      intro tokens listed
      cases later with
      | nil =>
          obtain ⟨close, closeKind, isClose, rfl⟩ := listed
          exact ⟨parameter.tokens, close, rfl, closeKind, isClose⟩
      | cons next later =>
          obtain ⟨comma, back, -, -, rfl, rest⟩ := listed
          obtain ⟨front, close, rfl, closeKind, isClose⟩ := ih rest
          exact ⟨parameter.tokens ++ comma :: front, close, by simp, closeKind, isClose⟩

/-- Something follows each token of a parameter in the list. -/
theorem ParameterList.split_of_mem {parameters : List WrittenParameter} :
    ∀ {tokens : List Token}, ParameterList parameters tokens → ∀ parameter ∈ parameters,
    ∀ token ∈ codeOf parameter.tokens,
      ∃ front back, codeOf tokens = front ++ token :: back ∧ back ≠ [] := by
  induction parameters with
  | nil => exact fun _ parameter member => nomatch member
  | cons first later ih =>
      intro tokens listed parameter member token inside
      cases later with
      | nil =>
          obtain ⟨close, -, -, code⟩ := listed.codeOf_last
          obtain rfl := List.mem_singleton.mp member
          obtain ⟨front, back, split⟩ := List.append_of_mem inside
          exact ⟨front, back ++ [close], by rw [code, split]; simp, by simp⟩
      | cons next later =>
          obtain ⟨comma, back, -, -, rest, code⟩ := listed.codeOf_more
          rcases List.mem_cons.mp member with rfl | inLater
          · obtain ⟨front, behind, split⟩ := List.append_of_mem inside
            exact ⟨front, behind ++ comma :: codeOf back, by rw [code, split]; simp, by simp⟩
          · obtain ⟨front, behind, split, some⟩ := ih rest parameter inLater token inside
            exact ⟨codeOf first.tokens ++ comma :: front, behind, by rw [code, split]; simp, some⟩

/-- If a list of expressions is read as a whole, then all of them are flat. -/
theorem ParameterList.isFlat_of_listed {parameters : List WrittenParameter} {tokens : List Token}
    (listed : ParameterList parameters tokens) (forms : ∀ token ∈ tokens, HasMarkForm token)
    (expressions : ∀ parameter ∈ parameters, ∀ value ∈ parameter.value, IsExpression value.tokens)
    {items : List Item} (read : Listed Item.tokens Item.EndsBefore items (codeOf tokens)) :
    ∀ parameter ∈ parameters, parameter.IsFlat := by
  apply listed.isFlat_of_length_le read
  apply listed.length_le_of_isParenless read
  intro parameter member value isValue
  have inside : ∀ token ∈ codeOf value.tokens, token ∈ codeOf parameter.tokens := by
    intro token inValue
    rw [codeOf_tokens, isValue, Option.map_some, Option.getD_some,
      Token.codeOf_code _ (isComment_of_char value.isEquals.1)]
    simp [inValue]
  have formOf : ∀ token ∈ codeOf value.tokens, HasMarkForm token := by
    intro token inValue
    obtain ⟨front, back, split, -⟩ := listed.split_of_mem parameter member token
      (inside token inValue)
    have inCode : token ∈ codeOf tokens := by rw [split]; simp
    exact forms token (List.mem_of_mem_filter inCode)
  have noClose : ∀ token ∈ codeOf value.tokens, token.value ≠ ")" := by
    intro token inValue isClose
    obtain ⟨front, back, split, some⟩ := listed.split_of_mem parameter member token
      (inside token inValue)
    exact some (read.nil_of_close ((formOf token inValue).1 isClose) isClose split)
  have closes := (expressions parameter member value isValue).2
  have noOpening := no_opening_of_closesAll closes noClose
  exact ⟨closes, fun token inValue => ⟨noOpening token inValue, formOf token inValue⟩⟩

/-- A list of parameters is read as such, up to its closing parenthesis, exactly if every default
value is flat. A list with an expression that is not flat makes reading fail, or stop before that
parenthesis. -/
theorem readList_flat_defaults (parameters : List WrittenParameter) (tokens : List Token)
    (listed : ParameterList parameters tokens) (rest : List Token) (idx : Nat) :
    ((∃ args, readList false ⟨tokens ++ rest, idx⟩ = .ok args ⟨rest, idx + tokens.length⟩ ∧
        args.map Argument.name = parameters.map fun parameter => parameter.name.value) ↔
      ∀ parameter ∈ parameters, parameter.IsFlat) ∧
    ((∀ token ∈ tokens, HasMarkForm token) →
      (∀ parameter ∈ parameters, ∀ value ∈ parameter.value, IsExpression value.tokens) →
      (∃ parameter ∈ parameters, ¬parameter.IsFlat) →
      ∀ args s, readList false ⟨tokens ++ rest, idx⟩ = .ok args s →
        s.idx < idx + tokens.length) := by
  obtain ⟨front, close, isWhole, closeKind, isClose⟩ := listed.exists_close
  have whole : Reader.FindsAll ⟨tokens ++ rest, idx⟩ (codeOf tokens)
      ⟨rest, idx + tokens.length⟩ := by
    have found := Reader.findsAll_codeOf front close rest (isComment_of_char closeKind) idx
    rw [isWhole]
    simpa [Nat.add_assoc] using found
  have code : codeOf (tokens ++ rest) = codeOf tokens ++ codeOf rest :=
    Token.codeOf_append tokens rest
  constructor
  · constructor
    · rintro ⟨args, read, names⟩
      obtain ⟨items, found, readItems, atFound, rfl⟩ := (readList_eq_ok_iff _ _ _).mp read
      have same : found = codeOf tokens :=
        List.append_cancel_right (atFound.codeOf_eq.symm.trans code)
      rw [same] at readItems
      have length := congrArg List.length names
      simp only [List.length_map] at length
      exact listed.isFlat_of_length_le readItems (Nat.le_of_eq length)
    · intro flat
      obtain ⟨items, readItems, names⟩ := listed.listed_of_isFlat flat
      exact ⟨_, (readList_eq_ok_iff _ _ _).mpr ⟨items, _, readItems, whole, rfl⟩, names⟩
  · rintro forms expressions ⟨parameter, member, notFlat⟩ args s read
    obtain ⟨items, found, readItems, atFound, -⟩ := (readList_eq_ok_iff _ _ _).mp read
    have notWhole : found ≠ codeOf tokens := by
      rintro rfl
      exact notFlat (listed.isFlat_of_listed forms expressions readItems parameter member)
    rcases List.append_eq_append_iff.mp (atFound.codeOf_eq.symm.trans code) with
      ⟨middle, split, -⟩ | ⟨middle, split, -⟩
    · cases middle with
      | nil => exact absurd (by rw [split, List.append_nil]) notWhole
      | cons token later =>
          rw [split] at whole
          exact atFound.idx_lt whole
    · cases middle with
      | nil => exact absurd (by rw [split, List.append_nil]) notWhole
      | cons token later =>
          have order : found = codeOf front ++ close :: token :: later := by
            rw [split, isWhole, Token.codeOf_append,
              Token.codeOf_code _ (isComment_of_char closeKind)]
            simp
          have isLast := readItems.nil_of_close closeKind isClose order
          cases isLast

/-- The parameters `a = 10 /* wide */ * [], b`. -/
def flatParameters : List WrittenParameter :=
  [⟨⟨.element, "a", 2, 2⟩, some ⟨⟨.char, "=", 4, 4⟩, [⟨.element, "10", 6, 6⟩,
      ⟨.comment, "/* wide */", 9, 9⟩, ⟨.char, "*", 20, 20⟩, ⟨.arrayStart, "[", 22, 22⟩,
      ⟨.arrayEnd, "]", 23, 23⟩], ⟨rfl, rfl⟩⟩, rfl⟩,
    ⟨⟨.element, "b", 26, 26⟩, none, rfl⟩]

/-- The parameters `a = g(1), b`. -/
def callParameters : List WrittenParameter :=
  [⟨⟨.element, "a", 2, 2⟩, some ⟨⟨.char, "=", 4, 4⟩, [⟨.element, "g", 6, 6⟩,
      ⟨.char, "(", 7, 7⟩, ⟨.element, "1", 8, 8⟩, ⟨.char, ")", 9, 9⟩], ⟨rfl, rfl⟩⟩, rfl⟩,
    ⟨⟨.element, "b", 12, 12⟩, none, rfl⟩]

theorem callParameters_listed :
    ParameterList callParameters
      (((Token.tokenize "f(a = g(1), b) \x7b\x7d").tokens.drop 2).take 9) := by
  refine ⟨⟨.char, ",", 10, 10⟩, _, rfl, rfl, ?_, ⟨.char, ")", 13, 13⟩, rfl, rfl, rfl⟩
  decide +kernel

theorem callParameters_expressions :
    ∀ parameter ∈ callParameters, ∀ value ∈ parameter.value, IsExpression value.tokens := by
  intro parameter member value isValue
  rcases List.mem_pair.mp member with rfl | rfl
  · obtain rfl := Option.some.inj isValue
    decide
  · cases isValue

theorem callParameters_not_isFlat : ∃ parameter ∈ callParameters, ¬parameter.IsFlat := by
  refine ⟨_, List.mem_cons_self, fun flat => ?_⟩
  obtain ⟨units, code⟩ := flat _ rfl
  have inUnits : (⟨.char, ")", 9, 9⟩ : Token) ∈ unitTokens units := by
    rw [← code]
    decide
  obtain ⟨unit, -, inUnit⟩ := List.mem_flatMap.mp inUnits
  exact absurd (unit.isMark_eq_false _ inUnit) (by decide)

/-- A list that is read as such, and one that is not. -/
theorem readList_flat_defaults_samples :
    let all := (Token.tokenize "f(a = 10 /* wide */ * [], b) \x7b\x7d").tokens
    let called := (Token.tokenize "f(a = g(1), b) \x7b\x7d").tokens
    (ParameterList flatParameters ((all.drop 2).take 10) ∧
      ∃ args, readList false (.past all 2) = .ok args (.past all 12) ∧
        args.map Argument.name = ["a", "b"]) ∧
    (ParameterList callParameters ((called.drop 2).take 9) ∧
      ∀ args s, readList false (.past called 2) = .ok args s → s.idx < 11) := by
  intro all called
  constructor
  · have listed : ParameterList flatParameters ((all.drop 2).take 10) := by
      refine ⟨⟨.char, ",", 24, 24⟩, _, rfl, rfl, ?_, ⟨.char, ")", 27, 27⟩, rfl, rfl, rfl⟩
      decide +kernel
    have flat : ∀ parameter ∈ flatParameters, parameter.IsFlat := by
      intro parameter member value isValue
      rcases List.mem_pair.mp member with rfl | rfl
      · obtain rfl := Option.some.inj isValue
        exact ⟨[.single ⟨.element, "10", 6, 6⟩ rfl (by decide),
          .single ⟨.char, "*", 20, 20⟩ rfl (by decide),
          .array ⟨.arrayStart, "[", 22, 22⟩ ⟨.arrayEnd, "]", 23, 23⟩ rfl rfl rfl], rfl⟩
      · cases isValue
    have order : (all.drop 2).take 10 ++ all.drop 12 = all.drop 2 := by decide +kernel
    have place : 2 + ((all.drop 2).take 10).length = 12 := by decide +kernel
    have read := (readList_flat_defaults flatParameters _ listed (all.drop 12) 2).1.mpr flat
    rw [order, place] at read
    exact ⟨listed, read⟩
  · have forms : ∀ token ∈ (called.drop 2).take 9, HasMarkForm token := by decide +kernel
    have order : (called.drop 2).take 9 ++ called.drop 11 = called.drop 2 := by decide +kernel
    have place : 2 + ((called.drop 2).take 9).length = 11 := by decide +kernel
    have stops := (readList_flat_defaults callParameters _ callParameters_listed
      (called.drop 11) 2).2 forms callParameters_expressions callParameters_not_isFlat
    rw [order, place] at stops
    exact ⟨callParameters_listed, stops⟩

/-- The parenthesis that closes the call `g(1)` ends the list: `b` is lost, and so is the rest of
the default value. -/
theorem readList_call_default :
    let all := (Token.tokenize "f(a = g(1), b) \x7b\x7d").tokens
    ParameterList callParameters ((all.drop 2).take 9) ∧
      (∀ parameter ∈ callParameters, ∀ value ∈ parameter.value, IsExpression value.tokens) ∧
      readList false (.past all 2) =
        .ok [{ name := "a", defaultValue := some "g(1" }] (.past all 8) ∧
      ¬∃ args, readList false (.past all 2) = .ok args (.past all 11) ∧
        args.map Argument.name = callParameters.map fun parameter => parameter.name.value := by
  intro all
  have read : readList false (.past all 2) =
      .ok [{ name := "a", defaultValue := some "g(1" }] (.past all 8) := by
    have areCode : ∀ token ∈ (Reader.past all 2).rest, token.isComment = false := by
      decide +kernel
    let item : Item := ⟨⟨none, ⟨.element, "a", 2, 2⟩, by simp, rfl⟩, .valued ⟨.char, "=", 4, 4⟩
      [.single ⟨.element, "g", 6, 6⟩ rfl (by decide), .single ⟨.char, "(", 7, 7⟩ rfl (by decide),
        .single ⟨.element, "1", 8, 8⟩ rfl (by decide)] ⟨rfl, rfl⟩⟩
    refine (readList_eq_ok_iff _ _ _).mpr
      ⟨[item], _, ⟨⟨.char, ")", 9, 9⟩, rfl, rfl, rfl⟩, ?_, by decide⟩
    exact (Reader.findsAll_iff_of_code areCode).mpr ⟨by decide +kernel, by decide +kernel⟩
  refine ⟨callParameters_listed, callParameters_expressions, read, ?_⟩
  rintro ⟨args, whole, -⟩
  rw [read] at whole
  have places := congrArg Reader.idx (EStateM.Result.ok.inj whole).2
  exact absurd places (by decide)

end Argument

end QmlDoc
