import QmlDoc.Proofs.CommentFree

set_option autoImplicit false

namespace QmlDoc

open Token (codeOf)

namespace Reader

/-- From `r` on, these tokens are found one after the other, up to `s`. -/
def FindsAll : Reader → List Token → Reader → Prop
  | r, [], s => r = s
  | r, token :: later, s => ∃ t : Reader, r.Finds token t ∧ t.FindsAll later s

theorem findsAll_singleton {r s : Reader} {token : Token} :
    r.FindsAll [token] s ↔ r.Finds token s := by
  constructor
  · rintro ⟨t, finds, rfl⟩
    exact finds
  · intro finds
    exact ⟨s, finds, rfl⟩

theorem findsAll_append {r s : Reader} {front back : List Token} :
    r.FindsAll (front ++ back) s ↔ ∃ t : Reader, r.FindsAll front t ∧ t.FindsAll back s := by
  induction front generalizing r with
  | nil =>
      constructor
      · intro found
        exact ⟨r, rfl, found⟩
      · rintro ⟨t, rfl, found⟩
        exact found
  | cons token front ih =>
      constructor
      · rintro ⟨t, finds, found⟩
        obtain ⟨u, first, second⟩ := ih.mp found
        exact ⟨u, ⟨t, finds, first⟩, second⟩
      · rintro ⟨u, ⟨t, finds, first⟩, second⟩
        exact ⟨t, finds, ih.mpr ⟨u, first, second⟩⟩

theorem FindsAll.reaches {r s : Reader} {tokens : List Token} (found : r.FindsAll tokens s) :
    r.Reaches s := by
  induction tokens generalizing r with
  | nil =>
      obtain rfl := found
      exact Reaches.refl r
  | cons token later ih =>
      obtain ⟨t, finds, rest⟩ := found
      exact finds.passes.reaches.trans (ih rest)

theorem FindsAll.length_lt {r s : Reader} {tokens : List Token} (some : tokens ≠ [])
    (found : r.FindsAll tokens s) : s.rest.length < r.rest.length := by
  cases tokens with
  | nil => exact absurd rfl some
  | cons token later =>
      obtain ⟨t, finds, rest⟩ := found
      exact Nat.lt_of_le_of_lt rest.reaches.length_le finds.passes.length_lt

theorem FindsAll.codeOf_eq {r s : Reader} {tokens : List Token} (found : r.FindsAll tokens s) :
    codeOf r.rest = tokens ++ codeOf s.rest := by
  induction tokens generalizing r with
  | nil =>
      obtain rfl := found
      rfl
  | cons token later ih =>
      obtain ⟨t, finds, rest⟩ := found
      rw [finds.codeOf_eq, ih rest, List.cons_append]

/-- Every list of tokens is found up to the last of them that is no comment. -/
theorem findsAll_codeOf (tokens : List Token) (stop : Token) (rest : List Token)
    (isCode : stop.isComment = false) : ∀ idx : Nat,
    FindsAll ⟨tokens ++ stop :: rest, idx⟩ (codeOf (tokens ++ [stop]))
      ⟨rest, idx + tokens.length + 1⟩ := by
  induction tokens with
  | nil =>
      intro idx
      show FindsAll ⟨stop :: rest, idx⟩ (codeOf [stop]) ⟨rest, idx + 1⟩
      rw [Token.codeOf_code _ isCode]
      exact findsAll_singleton.mpr ⟨[], rfl, by simp, isCode, rfl⟩
  | cons token tokens ih =>
      intro idx
      have later := ih (idx + 1)
      have place : idx + 1 + tokens.length + 1 = idx + (token :: tokens).length + 1 := by
        rw [List.length_cons]
        omega
      rw [place] at later
      show FindsAll ⟨token :: (tokens ++ stop :: rest), idx⟩
        (codeOf (token :: (tokens ++ [stop]))) _
      cases isComment : token.isComment with
      | false =>
          rw [Token.codeOf_code _ isComment]
          exact ⟨_, ⟨[], rfl, by simp, isComment, rfl⟩, later⟩
      | true =>
          rw [Token.codeOf_comment _ isComment]
          cases code : codeOf (tokens ++ [stop]) with
          | nil =>
              rw [Token.codeOf_append, Token.codeOf_code _ isCode] at code
              simp at code
          | cons first others =>
              rw [code] at later
              obtain ⟨t, ⟨comments, order, areComments, firstCode, place⟩, found⟩ := later
              refine ⟨t, ⟨token :: comments, ?_, ?_, firstCode, ?_⟩, found⟩
              · rw [List.cons_append, ← order]
              · intro each member
                rcases List.mem_cons.mp member with rfl | member
                · exact isComment
                · exact areComments each member
              · show t.idx = idx + (comments.length + 1) + 1
                rw [place]
                show idx + 1 + comments.length + 1 = idx + (comments.length + 1) + 1
                omega

/-- Among tokens without comments, what is found is what stands there. -/
theorem findsAll_iff_of_code {r s : Reader} {tokens : List Token}
    (areCode : ∀ token ∈ r.rest, token.isComment = false) :
    r.FindsAll tokens s ↔ r.rest = tokens ++ s.rest ∧ s.idx = r.idx + tokens.length := by
  constructor
  · intro found
    have code := found.codeOf_eq
    obtain ⟨read, order, place⟩ := found.reaches
    have restCode : ∀ token ∈ s.rest, token.isComment = false := by
      intro token member
      exact areCode token (by rw [order]; exact List.mem_append_right read member)
    rw [Token.codeOf_eq_self areCode, Token.codeOf_eq_self restCode] at code
    have same : read = tokens := List.append_cancel_right (order.symm.trans code)
    exact ⟨code, by rw [place, same]⟩
  · rintro ⟨order, place⟩
    obtain ⟨rest, idx⟩ := r
    obtain ⟨later, spot⟩ := s
    obtain rfl : rest = tokens ++ later := order
    obtain rfl : spot = idx + tokens.length := place
    rcases List.eq_nil_or_concat tokens with rfl | ⟨front, stop, isLast⟩
    · exact rfl
    · rw [List.concat_eq_append] at isLast
      subst isLast
      have isCode := areCode stop (by simp)
      have found := findsAll_codeOf front stop later isCode idx
      have frontCode : ∀ token ∈ front ++ [stop], token.isComment = false := by
        intro token member
        exact areCode token (List.mem_append_left later member)
      rw [Token.codeOf_eq_self frontCode] at found
      simpa [Nat.add_assoc] using found

end Reader

namespace Reading

variable {α β : Type} {r s : Reader}

theorem code_eq_ok_iff {token : Token} : code r = .ok token s ↔ r.Finds token s := by
  constructor
  · intro read
    exact ((code_meets r).of_ok read).2
  · rintro ⟨comments, order, areComments, isCode, place⟩
    obtain ⟨rest, idx⟩ := r
    obtain ⟨later, spot⟩ := s
    obtain rfl : rest = comments ++ token :: later := order
    obtain rfl : spot = idx + comments.length + 1 := place
    exact code_comments comments token later idx areComments isCode

theorem expect_eq_ok_iff {expected : Expected} {token : Token} :
    expect expected r = .ok token s ↔
      r.Finds token s ∧ expected.accepts token.kind = true := by
  constructor
  · intro read
    exact ((expect_meets expected r).of_ok read).2
  · rintro ⟨finds, accepted⟩
    rw [expect, bind_of_ok (code_eq_ok_iff.mpr finds), if_pos accepted]
    rfl

theorem expect_one_eq_ok_iff {kind : Token.Kind} {token : Token} :
    expect (.one kind) r = .ok token s ↔ r.Finds token s ∧ token.kind = kind := by
  rw [expect_eq_ok_iff, Expected.accepts, decide_eq_true_iff]

end Reading

namespace Argument

open Reading

/-- A part of a default value that one round reads: an empty block, an empty array or a single
token. Whether a token opens a block or an array is told by its value. -/
inductive ValueUnit
  | block (start stop : Token) (isValue : valueKinds.accepts start.kind = true)
      (opens : start.value = "\x7b") (closes : stop.kind = .blockEnd)
  | array (start stop : Token) (isValue : valueKinds.accepts start.kind = true)
      (opens : start.value = "[") (closes : stop.kind = .arrayEnd)
  | single (token : Token) (isValue : valueKinds.accepts token.kind = true)
      (free : token.value ∉ [")", ",", "\x7b", "["])

namespace ValueUnit

def tokens : ValueUnit → List Token
  | block start stop _ _ _ | array start stop _ _ _ => [start, stop]
  | single token _ _ => [token]

theorem tokens_ne_nil (unit : ValueUnit) : unit.tokens ≠ [] := by
  cases unit with
  | block | array | single => exact List.cons_ne_nil _ _

def text : ValueUnit → String
  | block .. => "\x7b\x7d"
  | array .. => "[]"
  | single token _ _ => token.value

end ValueUnit

def unitTokens (units : List ValueUnit) : List Token :=
  units.flatMap ValueUnit.tokens

def unitText (units : List ValueUnit) : String :=
  String.join (units.map ValueUnit.text)

/-- A comma or a closing parenthesis, by its value. -/
def Parts (token : Token) : Prop :=
  token.value = ")" ∨ token.value = ","

theorem Parts.ne {token : Token} (parts : Parts token) {value : String}
    (other : value ≠ ")" ∧ value ≠ ",") : token.value ≠ value := by
  rcases parts with isClose | isComma
  · rw [isClose]
    exact other.1.symm
  · rw [isComma]
    exact other.2.symm

/-- One round of reading a default value finds its end or a unit of it. -/
theorem defaultValueFrom_round {n : Nat} {value : String} {r s : Reader} {found : String × Token} :
    defaultValueFrom (n + 1) value r = .ok found s ↔
      (found.1 = value ∧ r.Finds found.2 s ∧ valueKinds.accepts found.2.kind = true ∧
        Parts found.2) ∨
      ∃ (unit : ValueUnit) (t : Reader), r.FindsAll unit.tokens t ∧
        defaultValueFrom n (value ++ unit.text) t = .ok found s := by
  rw [defaultValueFrom, bind_eq_ok_iff]
  constructor
  · rintro ⟨token, t, read, goesOn⟩
    obtain ⟨finds, accepted⟩ := expect_eq_ok_iff.mp read
    split at goesOn
    · rename_i parts
      rw [pure_eq_ok_iff] at goesOn
      obtain ⟨rfl, rfl⟩ := goesOn
      exact Or.inl ⟨rfl, finds, accepted, by simpa [Parts] using parts⟩
    · rename_i noPart
      right
      split at goesOn
      · rename_i isBrace
        obtain ⟨stop, u, closes, later⟩ := bind_eq_ok_iff.mp goesOn
        obtain ⟨findsStop, stopKind⟩ := expect_one_eq_ok_iff.mp closes
        exact ⟨.block token stop accepted isBrace stopKind, u, ⟨t, finds, u, findsStop, rfl⟩,
          later⟩
      · rename_i notBrace
        split at goesOn
        · rename_i isBracket
          obtain ⟨stop, u, closes, later⟩ := bind_eq_ok_iff.mp goesOn
          obtain ⟨findsStop, stopKind⟩ := expect_one_eq_ok_iff.mp closes
          exact ⟨.array token stop accepted isBracket stopKind, u, ⟨t, finds, u, findsStop, rfl⟩,
            later⟩
        · rename_i notBracket
          have free : token.value ∉ [")", ",", "\x7b", "["] := by
            simpa [notBrace, notBracket] using noPart
          exact ⟨.single token accepted free, t, ⟨t, finds, rfl⟩, goesOn⟩
  · rintro (⟨rfl, finds, accepted, parts⟩ | ⟨unit, t, units, later⟩)
    · refine ⟨found.2, s, expect_eq_ok_iff.mpr ⟨finds, accepted⟩, ?_⟩
      rw [if_pos (by simpa [Parts] using parts)]
      rfl
    · cases unit with
      | block start stop accepted opens closes =>
          obtain ⟨u, finds, v, findsStop, rfl⟩ := units
          refine ⟨start, u, expect_eq_ok_iff.mpr ⟨finds, accepted⟩, ?_⟩
          rw [if_neg (by rw [opens]; decide), if_pos opens,
            bind_of_ok (expect_one_eq_ok_iff.mpr ⟨findsStop, closes⟩)]
          exact later
      | array start stop accepted opens closes =>
          obtain ⟨u, finds, v, findsStop, rfl⟩ := units
          refine ⟨start, u, expect_eq_ok_iff.mpr ⟨finds, accepted⟩, ?_⟩
          rw [if_neg (by rw [opens]; decide), if_neg (by rw [opens]; decide), if_pos opens,
            bind_of_ok (expect_one_eq_ok_iff.mpr ⟨findsStop, closes⟩)]
          exact later
      | single token accepted free =>
          obtain ⟨u, finds, rfl⟩ := units
          refine ⟨token, u, expect_eq_ok_iff.mpr ⟨finds, accepted⟩, ?_⟩
          simp only [List.mem_cons, List.not_mem_nil, or_false, not_or] at free
          rw [if_neg (by simp [free]), if_neg free.2.2.1, if_neg free.2.2.2]
          exact later

/-- A default value is a sequence of units up to a comma or a closing parenthesis. -/
theorem defaultValueFrom_eq_ok_iff (n : Nat) : ∀ (value : String) (r : Reader),
    r.rest.length < n → ∀ (found : String × Token) (s : Reader),
    defaultValueFrom n value r = .ok found s ↔
      ∃ units, r.FindsAll (unitTokens units ++ [found.2]) s ∧ found.1 = value ++ unitText units ∧
        valueKinds.accepts found.2.kind = true ∧ Parts found.2 := by
  induction n with
  | zero => intro value r enough; omega
  | succ n ih =>
      intro value r enough found s
      rw [defaultValueFrom_round]
      constructor
      · rintro (⟨same, finds, accepted, parts⟩ | ⟨unit, t, atUnit, later⟩)
        · refine ⟨[], Reader.findsAll_singleton.mpr finds, ?_, accepted, parts⟩
          rw [same, unitText, List.map_nil, String.join_nil, String.append_empty]
        · have shorter := atUnit.length_lt unit.tokens_ne_nil
          obtain ⟨units, found, same, stop⟩ := (ih _ t (by omega) _ _).mp later
          refine ⟨unit :: units, ?_, ?_, stop⟩
          · rw [unitTokens, List.flatMap_cons, List.append_assoc]
            exact Reader.findsAll_append.mpr ⟨t, atUnit, found⟩
          · rw [same, unitText, unitText, List.map_cons, String.join_cons, String.append_assoc]
      · rintro ⟨units, found, same, accepted, parts⟩
        cases units with
        | nil =>
            left
            refine ⟨?_, Reader.findsAll_singleton.mp found, accepted, parts⟩
            rw [same, unitText, List.map_nil, String.join_nil, String.append_empty]
        | cons unit units =>
            right
            rw [unitTokens, List.flatMap_cons, List.append_assoc] at found
            obtain ⟨t, atUnit, later⟩ := Reader.findsAll_append.mp found
            have shorter := atUnit.length_lt unit.tokens_ne_nil
            refine ⟨unit, t, atUnit, (ih _ t (by omega) _ _).mpr ⟨units, later, ?_, accepted,
              parts⟩⟩
            rw [same, unitText, unitText, List.map_cons, String.join_cons, String.append_assoc]

/-- The name of an argument, perhaps behind an ellipsis. -/
structure ItemFront where
  dots : Option Token
  name : Token
  dotsKind : ∀ token ∈ dots, token.kind = .ellipses
  nameKind : name.kind = .element

def ItemFront.tokens (front : ItemFront) : List Token :=
  front.dots.toList ++ [front.name]

/-- What follows the name of an argument. -/
inductive ItemEnd
  | bare
  | typed (colon type : Token) (isColon : colon.kind = .char ∧ colon.value = ":")
      (typeKind : type.kind = .element)
  | valued (equals : Token) (units : List ValueUnit)
      (isEquals : equals.kind = .char ∧ equals.value = "=")

namespace ItemEnd

def tokens : ItemEnd → List Token
  | bare => []
  | typed colon type _ _ => [colon, type]
  | valued equals units _ => equals :: unitTokens units

def complete (named : Argument) : ItemEnd → Argument
  | bare => named
  | typed _ type _ _ => { named with type := type.value }
  | valued _ units _ => { named with defaultValue := some (unitText units) }

def units : ItemEnd → List ValueUnit
  | valued _ units _ => units
  | _ => []

/-- The kinds that the comma or parenthesis behind the argument may have. -/
def Allows : ItemEnd → Token.Kind → Prop
  | valued _ _ _, kind => valueKinds.accepts kind = true
  | _, kind => kind = .char

end ItemEnd

/-- An argument of a function as its tokens say it. -/
structure Item where
  front : ItemFront
  ending : ItemEnd

namespace Item

def tokens (item : Item) : List Token :=
  item.front.tokens ++ item.ending.tokens

def argument (item : Item) : Argument :=
  item.ending.complete { name := item.front.name.value, isSpread := item.front.dots.isSome }

/-- The token can stand right behind the item, if it is a comma or a closing parenthesis. -/
def EndsBefore (item : Item) (stop : Token) : Prop :=
  item.ending.Allows stop.kind

end Item

/-- The tokens are a closing parenthesis, or some items with commas between them and a closing
parenthesis behind the last. `ends` says which tokens may stand behind an item. -/
def Listed {α : Type} (spell : α → List Token) (ends : α → Token → Prop) :
    List α → List Token → Prop
  | [], tokens => ∃ close : Token, close.kind = .char ∧ close.value = ")" ∧ tokens = [close]
  | [item], tokens => ∃ close, ends item close ∧ close.value = ")" ∧ tokens = spell item ++ [close]
  | item :: next :: later, tokens => ∃ comma back, ends item comma ∧ comma.value = "," ∧
      tokens = spell item ++ comma :: back ∧ Listed spell ends (next :: later) back

/-- An argument up to the comma or closing parenthesis behind it. -/
theorem behindName_eq_ok_iff {named : Argument} {r s : Reader} {found : Argument × Token}
    (parts : Parts found.2) :
    behindName named r = .ok found s ↔
      ∃ ending : ItemEnd, r.FindsAll (ending.tokens ++ [found.2]) s ∧
        ending.Allows found.2.kind ∧ found.1 = ending.complete named := by
  have notColon : found.2.value ≠ ":" := parts.ne (by decide)
  have notEquals : found.2.value ≠ "=" := parts.ne (by decide)
  obtain ⟨arg, stop⟩ := found
  rw [behindName, bind_eq_ok_iff]
  constructor
  · rintro ⟨mark, t, readMark, goesOn⟩
    obtain ⟨findsMark, markKind⟩ := expect_one_eq_ok_iff.mp readMark
    split at goesOn
    · rename_i isEquals
      rw [get_bind] at goesOn
      obtain ⟨value, u, readValue, ended⟩ := bind_eq_ok_iff.mp goesOn
      obtain ⟨units, atUnits, text, accepted, valueParts⟩ :=
        (defaultValueFrom_eq_ok_iff _ "" t (Nat.lt_succ_self _) _ _).mp readValue
      rw [behindValue, if_neg (valueParts.ne (by decide)), pure_eq_ok_iff] at ended
      obtain ⟨same, rfl⟩ := ended
      obtain ⟨rfl, rfl⟩ := Prod.mk.inj same
      refine ⟨.valued mark units ⟨markKind, isEquals⟩, ⟨t, findsMark, atUnits⟩, accepted, ?_⟩
      rw [text, String.empty_append]
      rfl
    · rename_i noEquals
      rw [behindValue] at goesOn
      split at goesOn
      · rename_i isColon
        obtain ⟨type, u, readType, rest⟩ := bind_eq_ok_iff.mp goesOn
        obtain ⟨findsType, typeKind⟩ := expect_one_eq_ok_iff.mp readType
        obtain ⟨next, v, readStop, ended⟩ := bind_eq_ok_iff.mp rest
        obtain ⟨findsStop, stopKind⟩ := expect_one_eq_ok_iff.mp readStop
        rw [pure_eq_ok_iff] at ended
        obtain ⟨same, rfl⟩ := ended
        obtain ⟨rfl, rfl⟩ := Prod.mk.inj same
        exact ⟨.typed mark type ⟨markKind, isColon⟩ typeKind,
          ⟨t, findsMark, u, findsType, v, findsStop, rfl⟩, stopKind, rfl⟩
      · rw [pure_eq_ok_iff] at goesOn
        obtain ⟨same, rfl⟩ := goesOn
        obtain ⟨rfl, rfl⟩ := Prod.mk.inj same
        exact ⟨.bare, ⟨t, findsMark, rfl⟩, markKind, rfl⟩
  · rintro ⟨ending, atEnding, allowed, rfl⟩
    cases ending with
    | bare =>
        obtain ⟨t, finds, rfl⟩ := atEnding
        refine ⟨stop, t, expect_one_eq_ok_iff.mpr ⟨finds, allowed⟩, ?_⟩
        rw [if_neg notEquals, behindValue, if_neg notColon]
        rfl
    | typed colon type isColon typeKind =>
        obtain ⟨t, findsColon, u, findsType, v, findsStop, rfl⟩ := atEnding
        refine ⟨colon, t, expect_one_eq_ok_iff.mpr ⟨findsColon, isColon.1⟩, ?_⟩
        rw [if_neg (by rw [isColon.2]; decide), behindValue, if_pos isColon.2,
          bind_of_ok (expect_one_eq_ok_iff.mpr ⟨findsType, typeKind⟩),
          bind_of_ok (expect_one_eq_ok_iff.mpr ⟨findsStop, allowed⟩)]
        rfl
    | valued equals units isEquals =>
        obtain ⟨t, findsEquals, atUnits⟩ := atEnding
        refine ⟨equals, t, expect_one_eq_ok_iff.mpr ⟨findsEquals, isEquals.1⟩, ?_⟩
        have readValue := (defaultValueFrom_eq_ok_iff _ "" t (Nat.lt_succ_self _)
          (unitText units, stop) s).mpr
          ⟨units, atUnits, (String.empty_append).symm, allowed, parts⟩
        rw [if_pos isEquals.2, get_bind, bind_of_ok readValue, behindValue, if_neg notColon]
        rfl

/-- What stands behind the name of an item that other items follow. -/
def Behind (ending : ItemEnd) : List Item → List Token → Prop
  | [], tokens => ∃ close : Token, ending.Allows close.kind ∧ close.value = ")" ∧
      tokens = ending.tokens ++ [close]
  | next :: later, tokens => ∃ (comma : Token) (back : List Token), ending.Allows comma.kind ∧
      comma.value = "," ∧ tokens = ending.tokens ++ comma :: (next.front.tokens ++ back) ∧
      Behind next.ending later back

theorem listed_cons_iff {item : Item} {later : List Item} {tokens : List Token} :
    Listed Item.tokens Item.EndsBefore (item :: later) tokens ↔
      ∃ back, tokens = item.front.tokens ++ back ∧ Behind item.ending later back := by
  induction later generalizing item tokens with
  | nil =>
      constructor
      · rintro ⟨close, allowed, isClose, rfl⟩
        exact ⟨_, List.append_assoc _ _ _, close, allowed, isClose, rfl⟩
      · rintro ⟨back, rfl, close, allowed, isClose, rfl⟩
        exact ⟨close, allowed, isClose, (List.append_assoc _ _ _).symm⟩
  | cons next later ih =>
      constructor
      · rintro ⟨comma, back, allowed, isComma, rfl, listed⟩
        obtain ⟨behind, rfl, tail⟩ := ih.mp listed
        exact ⟨_, List.append_assoc _ _ _, comma, behind, allowed, isComma, rfl, tail⟩
      · rintro ⟨back, rfl, comma, behind, allowed, isComma, rfl, tail⟩
        exact ⟨comma, _, allowed, isComma, (List.append_assoc _ _ _).symm,
          ih.mpr ⟨behind, rfl, tail⟩⟩

/-- Reading on from the first token of an item reads its name, whether it is behind an ellipsis or
not. -/
theorem itemFront_eq_ok_iff {α : Type} {k : Bool → Token → Reading α} {value : α} {r s : Reader} :
    (∃ first t, r.Finds first t ∧ (first.kind = .element ∨ first.kind = .ellipses) ∧
      (if first.kind = .ellipses then expect (.one .element) >>= k true else k false first) t =
        .ok value s) ↔
      ∃ (front : ItemFront) (t : Reader), r.FindsAll front.tokens t ∧
        k front.dots.isSome front.name t = .ok value s := by
  constructor
  · rintro ⟨first, t, findsFirst, kinds, goesOn⟩
    by_cases isDots : first.kind = .ellipses
    · rw [if_pos isDots] at goesOn
      obtain ⟨name, u, readName, rest⟩ := bind_eq_ok_iff.mp goesOn
      obtain ⟨findsName, nameKind⟩ := expect_one_eq_ok_iff.mp readName
      exact ⟨⟨some first, name, by simp [isDots], nameKind⟩, u,
        ⟨t, findsFirst, u, findsName, rfl⟩, rest⟩
    · rw [if_neg isDots] at goesOn
      have nameKind := kinds.resolve_right isDots
      exact ⟨⟨none, first, by simp, nameKind⟩, t, ⟨t, findsFirst, rfl⟩, goesOn⟩
  · rintro ⟨⟨dots, name, dotsKind, nameKind⟩, u, found, goesOn⟩
    cases dots with
    | none =>
        obtain ⟨t, findsName, rfl⟩ := found
        refine ⟨name, t, findsName, Or.inl nameKind, ?_⟩
        rw [if_neg (by rw [nameKind]; decide)]
        exact goesOn
    | some dots =>
        obtain ⟨t, findsDots, v, findsName, rfl⟩ := found
        have isDots : dots.kind = .ellipses := dotsKind dots rfl
        refine ⟨dots, t, findsDots, Or.inr isDots, ?_⟩
        rw [if_pos isDots, bind_of_ok (expect_one_eq_ok_iff.mpr ⟨findsName, nameKind⟩)]
        exact goesOn

theorem accepts_itemFront {kind : Token.Kind} :
    (Expected.oneOf [.element, .ellipses]).accepts kind = true ↔
      kind = .element ∨ kind = .ellipses := by
  simp [Expected.accepts]

/-- One round reads an item and the token behind it, which ends the list or leads to the name of
the next item. -/
theorem listFrom_round {n : Nat} {isSpread : Bool} {name : Token} {r s : Reader}
    {args : List Argument} :
    listFrom false (n + 1) isSpread name r = .ok args s ↔
      ∃ (ending : ItemEnd) (stop : Token) (t : Reader),
        r.FindsAll (ending.tokens ++ [stop]) t ∧ ending.Allows stop.kind ∧
        (stop.value = ")" ∧ t = s ∧ args = [ending.complete { name := name.value, isSpread }] ∨
          stop.value = "," ∧ ∃ (next : ItemFront) (u : Reader) (later : List Argument),
            t.FindsAll next.tokens u ∧
            listFrom false n next.dots.isSome next.name u = .ok later s ∧
            args = ending.complete { name := name.value, isSpread } :: later) := by
  rw [listFrom, readFrom_eq, if_neg Bool.false_ne_true, bind_eq_ok_iff]
  constructor
  · rintro ⟨⟨arg, stop⟩, t, read, goesOn⟩
    dsimp only at goesOn
    split at goesOn
    · rename_i isClose
      obtain ⟨ending, found, allowed, rfl⟩ := (behindName_eq_ok_iff (Or.inl isClose)).mp read
      obtain ⟨rfl, rfl⟩ := pure_eq_ok_iff.mp goesOn
      exact ⟨ending, stop, t, found, allowed, Or.inl ⟨isClose, rfl, rfl⟩⟩
    · split at goesOn
      · cases goesOn
      · rename_i notOther
        have isComma : stop.value = "," := Classical.not_not.mp notOther
        obtain ⟨ending, found, allowed, rfl⟩ := (behindName_eq_ok_iff (Or.inr isComma)).mp read
        refine ⟨ending, stop, t, found, allowed, Or.inr ⟨isComma, ?_⟩⟩
        obtain ⟨first, u, readFirst, rest⟩ := bind_eq_ok_iff.mp goesOn
        obtain ⟨findsFirst, accepted⟩ := expect_eq_ok_iff.mp readFirst
        obtain ⟨next, v, atNext, onward⟩ := (itemFront_eq_ok_iff
          (k := fun dotted next =>
            listFrom false n dotted next >>= fun later => pure (_ :: later))).mp
          ⟨first, u, findsFirst, accepts_itemFront.mp accepted, rest⟩
        obtain ⟨later, w, readLater, ended⟩ := bind_eq_ok_iff.mp onward
        obtain ⟨rfl, rfl⟩ := pure_eq_ok_iff.mp ended
        exact ⟨next, v, later, atNext, readLater, rfl⟩
  · rintro ⟨ending, stop, t, found, allowed, ⟨isClose, rfl, rfl⟩ |
      ⟨isComma, next, u, later, atNext, readLater, rfl⟩⟩
    · refine ⟨(_, stop), t, (behindName_eq_ok_iff (Or.inl isClose)).mpr
        ⟨ending, found, allowed, rfl⟩, ?_⟩
      dsimp only
      rw [if_pos isClose]
      rfl
    · refine ⟨(_, stop), t, (behindName_eq_ok_iff (Or.inr isComma)).mpr
        ⟨ending, found, allowed, rfl⟩, ?_⟩
      dsimp only
      rw [if_neg (by rw [isComma]; decide), if_neg (by rw [isComma]; simp)]
      obtain ⟨first, v, findsFirst, kinds, rest⟩ := (itemFront_eq_ok_iff
        (k := fun dotted next =>
          listFrom false n dotted next >>= fun later => pure (_ :: later))).mpr
        ⟨next, u, atNext, bind_eq_ok_iff.mpr ⟨later, s, readLater, pure_eq_ok_iff.mpr ⟨rfl, rfl⟩⟩⟩
      exact bind_eq_ok_iff.mpr ⟨first, v,
        expect_eq_ok_iff.mpr ⟨findsFirst, accepts_itemFront.mpr kinds⟩, rest⟩

theorem listFrom_eq_ok_iff (n : Nat) : ∀ (front : ItemFront) (r : Reader), r.rest.length < n →
    ∀ (args : List Argument) (s : Reader),
    listFrom false n front.dots.isSome front.name r = .ok args s ↔
      ∃ ending later tokens, Behind ending later tokens ∧ r.FindsAll tokens s ∧
        args = (Item.mk front ending :: later).map Item.argument := by
  induction n with
  | zero => intro front r enough; omega
  | succ n ih =>
      intro front r enough args s
      rw [listFrom_round]
      constructor
      · rintro ⟨ending, stop, t, found, allowed, ⟨isClose, rfl, rfl⟩ |
          ⟨isComma, next, u, later, atNext, readLater, rfl⟩⟩
        · exact ⟨ending, [], _, ⟨stop, allowed, isClose, rfl⟩, found, rfl⟩
        · have shorter := found.length_lt (by simp)
          have onward := atNext.reaches.length_le
          obtain ⟨nextEnding, items, back, behind, atBack, rfl⟩ :=
            (ih next u (by omega) later s).mp readLater
          refine ⟨ending, ⟨next, nextEnding⟩ :: items, _,
            ⟨stop, back, allowed, isComma, rfl, behind⟩, ?_, rfl⟩
          rw [← List.singleton_append, ← List.append_assoc]
          exact Reader.findsAll_append.mpr
            ⟨t, found, Reader.findsAll_append.mpr ⟨u, atNext, atBack⟩⟩
      · rintro ⟨ending, later, tokens, behind, found, rfl⟩
        cases later with
        | nil =>
            obtain ⟨stop, allowed, isClose, rfl⟩ := behind
            exact ⟨ending, stop, s, found, allowed, Or.inl ⟨isClose, rfl, rfl⟩⟩
        | cons next later =>
            obtain ⟨stop, back, allowed, isComma, rfl, behind⟩ := behind
            rw [← List.singleton_append, ← List.append_assoc] at found
            obtain ⟨t, atStop, rest⟩ := Reader.findsAll_append.mp found
            obtain ⟨u, atNext, atBack⟩ := Reader.findsAll_append.mp rest
            have shorter := atStop.length_lt (by simp)
            have onward := atNext.reaches.length_le
            have readLater := (ih next.front u (by omega) _ s).mpr
              ⟨next.ending, later, back, behind, atBack, rfl⟩
            exact ⟨ending, stop, t, atStop, allowed,
              Or.inr ⟨isComma, next.front, u, _, atNext, readLater, rfl⟩⟩

/-- Reading the arguments of a function succeeds exactly on what the grammar describes, with the
arguments that it describes. -/
theorem readList_eq_ok_iff (r : Reader) (args : List Argument) (s : Reader) :
    readList false r = .ok args s ↔
      ∃ items tokens, Listed Item.tokens Item.EndsBefore items tokens ∧ r.FindsAll tokens s ∧
        args = items.map Item.argument := by
  rw [readList, bind_eq_ok_iff]
  constructor
  · rintro ⟨first, t, readFirst, goesOn⟩
    have findsFirst := code_eq_ok_iff.mp readFirst
    rw [get_bind] at goesOn
    split at goesOn
    · rename_i closes
      simp only [Bool.and_eq_true, decide_eq_true_eq] at closes
      obtain ⟨rfl, rfl⟩ := pure_eq_ok_iff.mp goesOn
      exact ⟨[], [first], ⟨first, closes.1, closes.2, rfl⟩, ⟨t, findsFirst, rfl⟩, rfl⟩
    · split at goesOn
      · rename_i isDots
        obtain ⟨name, u, readName, rest⟩ := bind_eq_ok_iff.mp goesOn
        obtain ⟨findsName, nameKind⟩ := expect_one_eq_ok_iff.mp readName
        have onward := findsName.passes.length_lt
        let front : ItemFront := ⟨some first, name, by simp [isDots], nameKind⟩
        obtain ⟨ending, later, tokens, behind, found, rfl⟩ :=
          (listFrom_eq_ok_iff _ front u (by omega) args s).mp rest
        exact ⟨⟨front, ending⟩ :: later, front.tokens ++ tokens,
          listed_cons_iff.mpr ⟨tokens, rfl, behind⟩, ⟨t, findsFirst, u, findsName, found⟩, rfl⟩
      · split at goesOn
        · rename_i nameKind
          let front : ItemFront := ⟨none, first, by simp, nameKind⟩
          obtain ⟨ending, later, tokens, behind, found, rfl⟩ :=
            (listFrom_eq_ok_iff _ front t (by omega) args s).mp goesOn
          exact ⟨⟨front, ending⟩ :: later, front.tokens ++ tokens,
            listed_cons_iff.mpr ⟨tokens, rfl, behind⟩, ⟨t, findsFirst, found⟩, rfl⟩
        · cases goesOn
  · rintro ⟨items, tokens, listed, found, rfl⟩
    cases items with
    | nil =>
        obtain ⟨close, closeKind, isClose, rfl⟩ := listed
        obtain ⟨t, finds, rfl⟩ := found
        refine ⟨close, t, code_eq_ok_iff.mpr finds, ?_⟩
        rw [get_bind, if_pos (by simp [closeKind, isClose])]
        rfl
    | cons item later =>
        obtain ⟨back, rfl, behind⟩ := listed_cons_iff.mp listed
        obtain ⟨⟨dots, name, dotsKind, nameKind⟩, ending⟩ := item
        cases dots with
        | none =>
            obtain ⟨t, finds, atBack⟩ := found
            have readAll := (listFrom_eq_ok_iff (t.rest.length + 1) ⟨none, name, dotsKind, nameKind⟩
              t (by omega) _ s).mpr ⟨ending, later, back, behind, atBack, rfl⟩
            refine ⟨name, t, code_eq_ok_iff.mpr finds, ?_⟩
            rw [get_bind, if_neg (by simp [nameKind]), if_neg (by simp [nameKind]), if_pos nameKind]
            exact readAll
        | some dots =>
            obtain ⟨t, findsDots, u, findsName, atBack⟩ := found
            have isDots : dots.kind = .ellipses := dotsKind dots rfl
            have onward := findsName.passes.length_lt
            have readAll := (listFrom_eq_ok_iff (t.rest.length + 1)
              ⟨some dots, name, dotsKind, nameKind⟩ u (by omega) _ s).mpr
              ⟨ending, later, back, behind, atBack, rfl⟩
            refine ⟨dots, t, code_eq_ok_iff.mpr findsDots, ?_⟩
            rw [get_bind, if_neg (by simp [isDots]), if_pos isDots,
              bind_of_ok (expect_one_eq_ok_iff.mpr ⟨findsName, nameKind⟩)]
            exact readAll

/-- Names and strings are no marks, and a token that opens a block or an array is spelled so. -/
def HasScannedForm (token : Token) : Prop :=
  (token.kind = .element ∨ token.kind = .string → token.value ∉ [")", ",", "\x7b", "["]) ∧
    (token.kind = .blockStart → token.value = "\x7b") ∧
    (token.kind = .arrayStart → token.value = "[")

instance (token : Token) : Decidable (HasScannedForm token) :=
  inferInstanceAs (Decidable (_ ∧ _))

/-- An opening brace is a block start or a character, an opening bracket an array start or a
character, and any other unit a name, a character or a string. -/
def ValueUnit.IsPlain : ValueUnit → Prop
  | block start _ _ _ _ => start.kind = .blockStart ∨ start.kind = .char
  | array start _ _ _ _ => start.kind = .arrayStart ∨ start.kind = .char
  | single token _ _ => token.kind = .element ∨ token.kind = .char ∨ token.kind = .string

/-- The item is made of plain units, and the mark behind it is a character. -/
def Item.PlainBefore (item : Item) (stop : Token) : Prop :=
  stop.kind = .char ∧ ∀ unit ∈ item.ending.units, unit.IsPlain

theorem valueKinds_cases {kind : Token.Kind} (accepted : valueKinds.accepts kind = true) :
    kind = .element ∨ kind = .char ∨ kind = .string ∨ kind = .blockStart ∨ kind = .arrayStart := by
  simpa [Expected.accepts] using accepted

/-- A token that is spelled like a mark is a character, or the opening that it is spelled like. -/
theorem kind_of_mark {token : Token} (form : HasScannedForm token)
    (accepted : valueKinds.accepts token.kind = true)
    (isMark : token.value ∈ [")", ",", "\x7b", "["]) :
    token.kind = .char ∨ token.kind = .blockStart ∧ token.value = "\x7b" ∨
      token.kind = .arrayStart ∧ token.value = "[" := by
  obtain ⟨free, braces, brackets⟩ := form
  rcases valueKinds_cases accepted with kindIs | kindIs | kindIs | kindIs | kindIs
  · exact absurd isMark (free (Or.inl kindIs))
  · exact Or.inl kindIs
  · exact absurd isMark (free (Or.inr kindIs))
  · exact Or.inr (Or.inl ⟨kindIs, braces kindIs⟩)
  · exact Or.inr (Or.inr ⟨kindIs, brackets kindIs⟩)

theorem kind_of_parts {token : Token} (form : HasScannedForm token)
    (accepted : valueKinds.accepts token.kind = true) (parts : Parts token) :
    token.kind = .char := by
  have isMark : token.value ∈ [")", ",", "\x7b", "["] := by
    rcases parts with isClose | isComma
    · simp [isClose]
    · simp [isComma]
  rcases kind_of_mark form accepted isMark with kindIs | ⟨-, isBrace⟩ | ⟨-, isBracket⟩
  · exact kindIs
  · exact absurd isBrace (parts.ne (by decide))
  · exact absurd isBracket (parts.ne (by decide))

theorem ValueUnit.isPlain_of_scanned (unit : ValueUnit)
    (scanned : ∀ token ∈ unit.tokens, HasScannedForm token) : unit.IsPlain := by
  cases unit with
  | block start stop accepted opens closes =>
      have form := scanned start (by simp [tokens])
      rcases kind_of_mark form accepted (by simp [opens]) with kindIs | ⟨kindIs, -⟩ | ⟨-, other⟩
      · exact Or.inr kindIs
      · exact Or.inl kindIs
      · exact absurd (opens.symm.trans other) (by decide)
  | array start stop accepted opens closes =>
      have form := scanned start (by simp [tokens])
      rcases kind_of_mark form accepted (by simp [opens]) with kindIs | ⟨-, other⟩ | ⟨kindIs, -⟩
      · exact Or.inr kindIs
      · exact absurd (opens.symm.trans other) (by decide)
      · exact Or.inl kindIs
  | single token accepted free =>
      obtain ⟨-, braces, brackets⟩ := scanned token (by simp [tokens])
      rcases valueKinds_cases accepted with kindIs | kindIs | kindIs | kindIs | kindIs
      · exact Or.inl kindIs
      · exact Or.inr (Or.inl kindIs)
      · exact Or.inr (Or.inr kindIs)
      · exact absurd (by simp [braces kindIs]) free
      · exact absurd (by simp [brackets kindIs]) free

/-- What may stand behind an item can be told from the tokens of the list. -/
theorem Listed.imp {α : Type} {spell : α → List Token} {ends ends' : α → Token → Prop}
    {items : List α} : ∀ {tokens : List Token}, Listed spell ends items tokens →
    (∀ item stop, (∀ token ∈ spell item, token ∈ tokens) → stop ∈ tokens → Parts stop →
      ends item stop → ends' item stop) → Listed spell ends' items tokens := by
  induction items with
  | nil => exact fun listed _ => listed
  | cons item later ih =>
      intro tokens listed implies
      cases later with
      | nil =>
          obtain ⟨close, allowed, isClose, rfl⟩ := listed
          exact ⟨close, implies item close (by simp +contextual) (by simp) (Or.inl isClose) allowed,
            isClose, rfl⟩
      | cons next later =>
          obtain ⟨comma, back, allowed, isComma, rfl, rest⟩ := listed
          refine ⟨comma, back,
            implies item comma (by simp +contextual) (by simp) (Or.inr isComma) allowed,
            isComma, rfl, ih rest ?_⟩
          intro each stop within member
          exact implies each stop (fun token inEach => by simp [within token inEach])
            (by simp [member])

theorem Item.plainBefore_of_scanned {item : Item} {stop : Token}
    (scanned : ∀ token ∈ item.tokens, HasScannedForm token) (form : HasScannedForm stop)
    (parts : Parts stop) (allowed : item.EndsBefore stop) : item.PlainBefore stop := by
  obtain ⟨front, ending⟩ := item
  cases ending with
  | bare => exact ⟨allowed, fun unit member => nomatch member⟩
  | typed colon type isColon typeKind => exact ⟨allowed, fun unit member => nomatch member⟩
  | valued equals units isEquals =>
      refine ⟨kind_of_parts form allowed parts, fun unit member => ?_⟩
      apply unit.isPlain_of_scanned
      intro token inUnit
      have inUnits : token ∈ unitTokens units := List.mem_flatMap.mpr ⟨unit, member, inUnit⟩
      exact scanned token (by simp [tokens, ItemEnd.tokens, inUnits])

theorem ItemEnd.allows_char (ending : ItemEnd) : ending.Allows .char := by
  cases ending with
  | valued equals units isEquals => show valueKinds.accepts .char = true; decide
  | bare | typed colon type isColon typeKind => rfl

/-- On tokens without comments that have the form scanning gives them, reading the arguments of a
function accepts exactly the lists of plain items, and fails on all else. -/
theorem readList_accepts_exactly (r : Reader)
    (areCode : ∀ token ∈ r.rest, token.isComment = false)
    (scanned : ∀ token ∈ r.rest, HasScannedForm token) :
    (∀ args s, readList false r = .ok args s ↔
      ∃ items tokens, Listed Item.tokens Item.PlainBefore items tokens ∧
        r.rest = tokens ++ s.rest ∧ s.idx = r.idx + tokens.length ∧
        args = items.map Item.argument) ∧
    ((¬∃ items tokens rest, Listed Item.tokens Item.PlainBefore items tokens ∧
        r.rest = tokens ++ rest) → ∃ error s, readList false r = .error error s) := by
  have exactly : ∀ args s, readList false r = .ok args s ↔
      ∃ items tokens, Listed Item.tokens Item.PlainBefore items tokens ∧
        r.rest = tokens ++ s.rest ∧ s.idx = r.idx + tokens.length ∧
        args = items.map Item.argument := by
    intro args s
    rw [readList_eq_ok_iff]
    constructor
    · rintro ⟨items, tokens, listed, found, rfl⟩
      obtain ⟨order, place⟩ := (Reader.findsAll_iff_of_code areCode).mp found
      have forms : ∀ token ∈ tokens, HasScannedForm token := fun token member =>
        scanned token (by rw [order]; exact List.mem_append_left _ member)
      refine ⟨items, tokens, listed.imp ?_, order, place, rfl⟩
      intro item stop within member parts allowed
      exact Item.plainBefore_of_scanned (fun token inItem => forms token (within token inItem))
        (forms stop member) parts allowed
    · rintro ⟨items, tokens, listed, order, place, rfl⟩
      refine ⟨items, tokens, listed.imp ?_, ?_, rfl⟩
      · intro item stop _ _ _ plain
        rw [Item.EndsBefore, plain.1]
        exact item.ending.allows_char
      · exact (Reader.findsAll_iff_of_code areCode).mpr ⟨order, place⟩
  refine ⟨exactly, fun noList => ?_⟩
  cases outcome : readList false r with
  | error error s => exact ⟨error, s, rfl⟩
  | ok args s =>
      obtain ⟨items, tokens, listed, order, -⟩ := (exactly args s).mp outcome
      exact absurd ⟨items, tokens, s.rest, listed, order⟩ noList

/-- The arguments `a = {} + [], ...b, c: int` behind their opening parenthesis. -/
def sampleItems : List Item :=
  [⟨⟨none, ⟨.element, "a", 3, 3⟩, by simp, rfl⟩, .valued ⟨.char, "=", 5, 5⟩
      [.block ⟨.blockStart, "\x7b", 7, 7⟩ ⟨.blockEnd, "\x7d", 8, 8⟩ rfl rfl rfl,
        .single ⟨.char, "+", 10, 10⟩ rfl (by decide),
        .array ⟨.arrayStart, "[", 12, 12⟩ ⟨.arrayEnd, "]", 13, 13⟩ rfl rfl rfl] ⟨rfl, rfl⟩⟩,
    ⟨⟨some ⟨.ellipses, "...", 16, 16⟩, ⟨.element, "b", 19, 19⟩, by simp, rfl⟩, .bare⟩,
    ⟨⟨none, ⟨.element, "c", 22, 22⟩, by simp, rfl⟩,
      .typed ⟨.char, ":", 23, 23⟩ ⟨.element, "int", 25, 25⟩ ⟨rfl, rfl⟩ rfl⟩]

/-- The tokens that spell these arguments are read to them. -/
theorem readList_accepts_sample :
    let r := Reader.past (Token.tokenize "on(a = \x7b\x7d + [], ...b, c: int) \x7b\x7d").tokens 2
    (∀ token ∈ r.rest, token.isComment = false) ∧ (∀ token ∈ r.rest, HasScannedForm token) ∧
      readList false r = .ok
        [{ name := "a", defaultValue := some "\x7b\x7d+[]" }, { name := "b", isSpread := true },
          { name := "c", type := "int" }]
        ⟨[⟨.blockStart, "\x7b", 30, 30⟩, ⟨.blockEnd, "\x7d", 31, 31⟩], 17⟩ := by
  intro r
  have areCode : ∀ token ∈ r.rest, token.isComment = false := by decide +kernel
  have scanned : ∀ token ∈ r.rest, HasScannedForm token := by decide +kernel
  have listed : Listed Item.tokens Item.PlainBefore sampleItems (r.rest.take 15) := by
    have plain : ∀ item ∈ sampleItems, ∀ unit ∈ item.ending.units, unit.IsPlain := by
      simp [sampleItems, ItemEnd.units, ValueUnit.IsPlain]
    refine ⟨⟨.char, ",", 14, 14⟩, _, ⟨rfl, plain _ (by simp [sampleItems])⟩, rfl, ?_,
      ⟨.char, ",", 20, 20⟩, _, ⟨rfl, plain _ (by simp [sampleItems])⟩, rfl, rfl,
      ⟨.char, ")", 28, 28⟩, ⟨rfl, plain _ (by simp [sampleItems])⟩, rfl, rfl⟩
    decide +kernel
  exact ⟨areCode, scanned, ((readList_accepts_exactly r areCode scanned).1 _ _).mpr
    ⟨sampleItems, r.rest.take 15, listed, by decide +kernel, by decide +kernel, by decide +kernel⟩⟩

end Argument

end QmlDoc
