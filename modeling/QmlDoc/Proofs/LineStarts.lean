import QmlDoc.Proofs.LexemeWords
import QmlDoc.Proofs.ScanTiles
import QmlDoc.Proofs.Words

set_option autoImplicit false

namespace QmlDoc

namespace Text

/-- Only white space stands on the last line of a text, which is given with its end first. -/
def blankLine (before : List Char) : Bool :=
  (before.takeWhile (· ≠ '\n')).all isBlank

theorem blankLine_cons {c : Char} (inLine : c ≠ '\n') (before : List Char) :
    blankLine (c :: before) = (isBlank c && blankLine before) := by
  rw [blankLine, List.takeWhile_cons_of_pos (by simpa using inLine), List.all_cons, blankLine]

theorem ne_newline_of_solid {c : Char} (solid : isBlank c = false) : c ≠ '\n' := by
  rintro rfl
  cases solid

theorem blankLine_solid {c : Char} (solid : isBlank c = false) (before : List Char) :
    blankLine (c :: before) = false := by
  rw [blankLine_cons (ne_newline_of_solid solid), solid, Bool.false_and]

theorem blankLine_append {line : List Char} (inLine : '\n' ∉ line) (before : List Char) :
    blankLine (line ++ before) = (line.all isBlank && blankLine before) := by
  rw [blankLine, takeWhile_ne_append _ _ _ inLine, List.all_append, blankLine]

/-- What stands before a text does not make its last line blank. -/
theorem not_blankLine_append {piece : List Char} (solid : blankLine piece = false)
    (before : List Char) : blankLine (piece ++ before) = false := by
  induction piece with
  | nil => cases solid
  | cons c piece ih =>
      have inLine : c ≠ '\n' := by
        rintro rfl
        cases solid
      rw [blankLine_cons inLine, Bool.and_eq_false_iff] at solid
      rw [List.cons_append, blankLine_cons inLine, Bool.and_eq_false_iff]
      exact solid.imp_right ih

theorem Solid.not_blankLine {word : List Char} (solid : Solid word) :
    blankLine word.reverse = false := by
  obtain ⟨c, rest, backwards⟩ := List.exists_cons_of_ne_nil
    (fun empty => solid.1 (List.reverse_eq_nil_iff.mp empty))
  rw [backwards]
  refine blankLine_solid (solid.2 c ?_) rest
  rw [← List.mem_reverse, backwards]
  exact List.mem_cons_self

/-- A text that ends with a character other than white space. -/
theorem not_blankLine_concat (front : List Char) {c : Char} (solid : isBlank c = false) :
    blankLine (front ++ [c]).reverse = false := by
  rw [List.reverse_append]
  exact blankLine_solid solid front.reverse

end Text

namespace Lexeme

open Text (blankLine)

/-- What is found ends on a line that is not blank, or with the text. A token never starts with
white space. -/
def EndsOnLine (read : List Char → Option (List Char)) : Prop :=
  ∀ text found, (∀ c, text.head? = some c → Text.isBlank c = false) → read text = some found →
    blankLine found.reverse = false ∨ found = text

theorem throughClose_ends (text : List Char) : ∀ found, throughClose text = some found →
    ∃ front, found = front ++ ['/'] := by
  fun_induction throughClose text with
  | case1 rest =>
      intro found read
      obtain rfl := Option.some.inj read
      exact ⟨['*'], rfl⟩
  | case2 c rest _ ih =>
      intro found read
      obtain ⟨later, readLater, rfl⟩ := Option.map_eq_some_iff.mp read
      obtain ⟨front, rfl⟩ := ih later readLater
      exact ⟨c :: front, rfl⟩
  | case3 => intro found read; cases read

theorem stringRest_ends (quote : Char) (text : List Char) : ∀ found,
    stringRest quote text = some found → ∃ front, found = front ++ [quote] := by
  fun_induction stringRest quote text with
  | case1 => intro found read; cases read
  | case2 rest => intro found read; cases read
  | case3 c rest _ ih =>
      intro found read
      obtain ⟨later, readLater, rfl⟩ := Option.map_eq_some_iff.mp read
      obtain ⟨front, rfl⟩ := ih later readLater
      exact ⟨'\\' :: c :: front, rfl⟩
  | case4 rest =>
      intro found read
      obtain rfl := Option.some.inj read
      exact ⟨[], rfl⟩
  | case5 c rest _ _ ih =>
      intro found read
      obtain ⟨later, readLater, rfl⟩ := Option.map_eq_some_iff.mp read
      obtain ⟨front, rfl⟩ := ih later readLater
      exact ⟨c :: front, rfl⟩

/-- In a run of comment lines a slash stands on every line, so also on the last one: on the line
that is being read, or behind its indentation. -/
theorem lineRun_ends (opens : List Char → Bool)
    (slash : ∀ text, opens text = true → ∃ rest, text = '/' :: rest) (text : List Char) :
    ∀ before, blankLine before = false ∨ opens (text.dropWhile Text.isIndent) = true →
      blankLine ((lineRun opens text).reverse ++ before) = false := by
  have noNewline (rest : List Char) : opens (('\n' :: rest).dropWhile Text.isIndent) = false := by
    by_contra started
    obtain ⟨_, starts⟩ := slash _ (Bool.of_not_eq_false started)
    cases starts
  induction text with
  | nil =>
      intro before started
      rcases started with solid | started
      · exact solid
      · obtain ⟨_, starts⟩ := slash _ started
        cases starts
  | cons c rest ih =>
      intro before started
      rw [lineRun]
      split
      · rename_i isNewline
        subst isNewline
        split
        · rename_i goesOn
          rw [List.reverse_cons, List.append_assoc]
          exact ih ('\n' :: before) (Or.inr goesOn)
        · refine started.resolve_right ?_
          rw [noNewline]
          exact Bool.false_ne_true
      · rename_i inLine
        rw [List.reverse_cons, List.append_assoc]
        refine ih (c :: before) ?_
        rcases started with solid | started
        · rw [Text.blankLine_cons inLine, solid, Bool.and_false]
          exact Or.inl rfl
        · by_cases indents : Text.isIndent c = true
          · rw [List.dropWhile_cons_of_pos indents] at started
            exact Or.inr started
          · rw [List.dropWhile_cons_of_neg indents] at started
            obtain ⟨_, starts⟩ := slash _ started
            obtain ⟨rfl, -⟩ := List.cons.inj starts
            exact Or.inl (Text.blankLine_solid (by decide) before)

theorem inlineBlock_endsOnLine : EndsOnLine inlineBlock := by
  intro text found _ read
  rw [inlineBlock] at read
  split at read
  · obtain ⟨later, readLater, rfl⟩ := Option.map_eq_some_iff.mp read
    obtain ⟨front, rfl⟩ := throughClose_ends _ _ readLater
    rw [← List.append_assoc]
    exact Or.inl (Text.not_blankLine_concat _ (by decide))
  · cases read

theorem blockComment_endsOnLine : EndsOnLine blockComment := by
  intro text found _ read
  unfold blockComment at read
  split at read
  · obtain ⟨later, readLater, rfl⟩ := Option.map_eq_some_iff.mp read
    obtain ⟨front, rfl⟩ := throughClose_ends _ _ readLater
    exact Or.inl (Text.not_blankLine_concat ('/' :: '*' :: front) (by decide))
  · cases read

/-- A run of comment lines that starts with a slash. -/
theorem lineRun_endsOnLine (opens : List Char → Bool)
    (slash : ∀ text, opens text = true → ∃ rest, text = '/' :: rest) :
    EndsOnLine fun text => if opens text then some (lineRun opens text) else none := by
  intro text found _ read
  obtain ⟨started, ⟨⟩⟩ := Option.ite_none_right_eq_some.mp read
  obtain ⟨rest, rfl⟩ := slash _ started
  have ends := lineRun_ends opens slash ('/' :: rest) [] (Or.inr started)
  rw [List.append_nil] at ends
  exact Or.inl ends

theorem inlineLines_endsOnLine : EndsOnLine inlineLines :=
  lineRun_endsOnLine _ (opensInline_cons _ _ _)

theorem lineComment_endsOnLine : EndsOnLine lineComment := by
  refine lineRun_endsOnLine _ fun text started => ?_
  unfold opensLine at started
  split at started
  · exact ⟨_, rfl⟩
  · cases started

theorem stringLiteral_endsOnLine : EndsOnLine stringLiteral := by
  intro text found _ read
  cases text with
  | nil => cases read
  | cons c rest =>
      obtain ⟨isQuote, read⟩ := Option.ite_none_right_eq_some.mp read
      obtain ⟨later, readLater, rfl⟩ := Option.map_eq_some_iff.mp read
      obtain ⟨front, rfl⟩ := stringRest_ends _ _ _ readLater
      have solid : Text.isBlank c = false := by
        simp only [Bool.or_eq_true, decide_eq_true_eq, or_assoc] at isQuote
        rcases isQuote with rfl | rfl | rfl <;> decide
      exact Or.inl (Text.not_blankLine_concat (c :: front) solid)

theorem exactly_endsOnLine (form : List Char) (solid : Text.Solid form) :
    EndsOnLine (exactly form) := by
  intro text found _ read
  obtain ⟨-, ⟨⟩⟩ := Option.ite_none_right_eq_some.mp read
  exact Or.inl solid.not_blankLine

/-- White space behind the word is passed over lines, but then something stands on the last of
them or the text ends. -/
theorem directive_endsOnLine (word : List Char) (starts : List Char → Bool) :
    EndsOnLine (directive word starts) := by
  intro text found _ read
  unfold directive at read
  split at read
  · cases read
  · rename_i after parted
    obtain rfl := List.isPrefixOf?_eq_some_iff_append_eq.mp parted
    obtain ⟨-, ⟨⟩⟩ := Option.ite_none_right_eq_some.mp read
    have parts := @List.takeWhile_append_dropWhile _ Text.isBlank after
    have stops := List.head?_dropWhile_not Text.isBlank after
    cases ahead : after.dropWhile Text.isBlank with
    | nil =>
        rw [ahead, List.append_nil] at parts
        exact Or.inr (by rw [List.takeWhile_nil, List.append_nil, parts])
    | cons c rest =>
        rw [ahead] at stops
        have solid : Text.isBlank c = false := by simpa using stops
        have inLine := Text.ne_newline_of_solid solid
        have onLine : '\n' ∉ (rest.takeWhile (· ≠ '\n')).reverse := by
          intro member
          simpa using List.all_eq_true.mp List.all_takeWhile _ (List.mem_reverse.mp member)
        refine Or.inl ?_
        rw [List.takeWhile_cons_of_pos (by simpa using inLine), List.reverse_append,
          List.reverse_cons, List.append_assoc, Text.blankLine_append onLine,
          List.singleton_append, Text.blankLine_solid solid, Bool.and_false]

theorem wordBefore_endsOnLine (word : List Char) (solid : Text.Solid word) :
    EndsOnLine (wordBefore word) := by
  intro text found _ read
  rw [wordBefore_eq read]
  exact Or.inl solid.not_blankLine

theorem wordsBefore_endsOnLine (first second : List Char) (solid : Text.Solid second) :
    EndsOnLine (wordsBefore first second) := by
  intro text found _ read
  unfold wordsBefore at read
  split at read
  · cases read
  · obtain ⟨-, read⟩ := Option.ite_none_left_eq_some.mp read
    obtain ⟨later, readLater, rfl⟩ := Option.map_eq_some_iff.mp read
    rw [wordBefore_eq readLater, List.reverse_append]
    exact Or.inl (Text.not_blankLine_append solid.not_blankLine _)

theorem EndsOnLine.or {first second : List Char → Option (List Char)} (one : EndsOnLine first)
    (other : EndsOnLine second) : EndsOnLine fun text => (first text).or (second text) := by
  intro text found starts read
  rcases Option.or_eq_some_iff.mp read with read | ⟨-, read⟩
  · exact one text found starts read
  · exact other text found starts read

theorem memberKeyword_endsOnLine : EndsOnLine memberKeyword :=
  (wordsBefore_endsOnLine _ _ (by decide)).or <| (wordBefore_endsOnLine _ (by decide)).or <|
    (wordsBefore_endsOnLine _ _ (by decide)).or <| (wordBefore_endsOnLine _ (by decide)).or <|
      wordBefore_endsOnLine _ (by decide)

theorem functionKeyword_endsOnLine : EndsOnLine functionKeyword := by
  intro text found _ read
  unfold functionKeyword at read
  split at read
  · cases read
  · obtain ⟨-, ⟨⟩⟩ := Option.ite_none_right_eq_some.mp read
    exact Or.inl (by decide)

theorem element_endsOnLine : EndsOnLine element := by
  intro text found _ read
  cases text with
  | nil => cases read
  | cons c rest =>
      obtain ⟨isWord, ⟨⟩⟩ := Option.ite_none_right_eq_some.mp read
      have solid (d : Char) (isElement : isElementChar d = true) : Text.isBlank d = false := by
        by_contra blank
        rw [not_isElementChar_of_isBlank (Bool.of_not_eq_false blank)] at isElement
        cases isElement
      refine Or.inl (Text.Solid.not_blankLine ⟨List.cons_ne_nil _ _, ?_⟩)
      refine List.forall_mem_cons.mpr ⟨solid c (by simp [isElementChar, isWord]), ?_⟩
      exact fun d member => solid d (List.all_eq_true.mp List.all_takeWhile d member)

theorem singleChar_endsOnLine : EndsOnLine singleChar := by
  intro text found starts read
  unfold singleChar at read
  split at read
  · obtain ⟨-, ⟨⟩⟩ := Option.ite_none_left_eq_some.mp read
    exact Or.inl (Text.blankLine_solid (starts _ rfl) [])
  · cases read

theorem solid_of_isNameChar {name : List Char} (nonempty : name ≠ [])
    (inside : ∀ c ∈ name, isNameChar c = true) : Text.Solid name := by
  refine ⟨nonempty, fun c member => ?_⟩
  by_contra blank
  have noName := not_isNameChar_of_isBlank (Bool.of_not_eq_false blank)
  rw [inside c member] at noName
  cases noName

theorem nameBefore_endsOnLine (mark : Char) : EndsOnLine (nameBefore mark) := by
  intro text found _ read
  have nonempty := (nameBefore_front mark text found read).2
  obtain ⟨-, ⟨⟩⟩ := Option.ite_none_right_eq_some.mp read
  have solid := solid_of_isNameChar nonempty (List.all_eq_true.mp List.all_takeWhile)
  exact Or.inl solid.not_blankLine

/-- As for what is found, for the whole lexeme. -/
def Rule.EndsOnLine (rule : Rule) : Prop :=
  ∀ previous text lexeme, (∀ c, text.head? = some c → Text.isBlank c = false) →
    rule previous text = some lexeme →
      blankLine (lexeme.kind.opening ++ lexeme.text).reverse = false ∨
        lexeme.kind.opening ++ lexeme.text = text

theorem plain_endsOnLine (kind : Token.Kind) (read : List Char → Option (List Char))
    (unmarked : kind.opening = []) (ends : EndsOnLine read) :
    Rule.EndsOnLine (plain kind read) := by
  intro previous text lexeme starts found
  obtain ⟨value, readValue, rfl⟩ := Option.map_eq_some_iff.mp found
  rw [unmarked]
  exact ends text value starts readValue

theorem brace_endsOnLine (kind : Token.Kind) (c : Char) (unmarked : kind.opening = [])
    (solid : Text.isBlank c = false) : Rule.EndsOnLine (brace kind c) := by
  intro previous text lexeme _ found
  unfold brace at found
  split at found
  · obtain ⟨-, ⟨⟩⟩ := Option.ite_none_right_eq_some.mp found
    rw [unmarked]
    exact Or.inl (Text.blankLine_solid solid [])
  · cases found

theorem inlineComponent_endsOnLine : Rule.EndsOnLine inlineComponent := by
  intro previous text lexeme _ found
  have nonempty := (inlineComponent_isFitting previous text lexeme found).nonempty
  unfold inlineComponent at found
  split at found
  · cases found
  · obtain ⟨-, ⟨⟩⟩ := Option.ite_none_left_eq_some.mp found
    have solid := solid_of_isNameChar nonempty (List.all_eq_true.mp List.all_takeWhile)
    rw [List.reverse_append]
    exact Or.inl (Text.not_blankLine_append solid.not_blankLine _)

theorem endsOnLine_of_mem : ∀ rule ∈ lineRules ++ rules, Rule.EndsOnLine rule := by
  simp only [lineRules, rules, List.cons_append, List.nil_append, List.forall_mem_cons]
  refine ⟨inlineComponent_endsOnLine, ?_⟩
  refine ⟨plain_endsOnLine _ _ rfl (nameBefore_endsOnLine _), ?_⟩
  refine ⟨plain_endsOnLine _ _ rfl (nameBefore_endsOnLine _), ?_⟩
  refine ⟨plain_endsOnLine _ _ rfl inlineBlock_endsOnLine, ?_⟩
  refine ⟨plain_endsOnLine _ _ rfl inlineLines_endsOnLine, ?_⟩
  refine ⟨plain_endsOnLine _ _ rfl blockComment_endsOnLine, ?_⟩
  refine ⟨plain_endsOnLine _ _ rfl lineComment_endsOnLine, ?_⟩
  refine ⟨plain_endsOnLine _ _ rfl stringLiteral_endsOnLine, ?_⟩
  refine ⟨brace_endsOnLine _ _ rfl (by decide), brace_endsOnLine _ _ rfl (by decide), ?_⟩
  refine ⟨plain_endsOnLine _ _ rfl (exactly_endsOnLine _ (by decide)), ?_⟩
  refine ⟨plain_endsOnLine _ _ rfl (exactly_endsOnLine _ (by decide)), ?_⟩
  refine ⟨plain_endsOnLine _ _ rfl (directive_endsOnLine _ _), ?_⟩
  refine ⟨plain_endsOnLine _ _ rfl (directive_endsOnLine _ _), ?_⟩
  refine ⟨plain_endsOnLine _ _ rfl memberKeyword_endsOnLine, ?_⟩
  refine ⟨plain_endsOnLine _ _ rfl functionKeyword_endsOnLine, ?_⟩
  refine ⟨plain_endsOnLine _ _ rfl (exactly_endsOnLine _ (by decide)), ?_⟩
  refine ⟨plain_endsOnLine _ _ rfl element_endsOnLine, ?_⟩
  refine ⟨plain_endsOnLine _ _ rfl singleChar_endsOnLine, ?_⟩
  exact List.forall_mem_nil _

/-- On a line that is not blank so far, or at any place inside a line, every form of token leads to
such a place again, or to the end of the text. -/
theorem find?_endsOnLine {firstOnLine : Bool} {previous : Option Char} {text : List Char}
    {lexeme : Lexeme} (starts : ∀ c, text.head? = some c → Text.isBlank c = false)
    (found : find? firstOnLine previous text = some lexeme) :
    blankLine (lexeme.kind.opening ++ lexeme.text).reverse = false ∨
      lexeme.kind.opening ++ lexeme.text = text := by
  obtain ⟨rule, tried, reads⟩ := find?_rule found
  exact endsOnLine_of_mem rule tried previous text lexeme starts reads

end Lexeme

/-- The kinds of token that only the first token of a line can have. -/
def Token.Kind.startsLine : Token.Kind → Bool
  | .component | .inlineComponent | .attributeName => true
  | _ => false

namespace Lexeme

theorem not_startsLine_of_mem : ∀ rule ∈ rules, ∀ previous text lexeme,
    rule previous text = some lexeme → lexeme.kind.startsLine = false := by
  have plainKind (kind : Token.Kind) (read : List Char → Option (List Char))
      (inLine : kind.startsLine = false) (previous : Option Char) (text : List Char)
      (lexeme : Lexeme) (found : plain kind read previous text = some lexeme) :
      lexeme.kind.startsLine = false := by
    obtain ⟨value, -, rfl⟩ := Option.map_eq_some_iff.mp found
    exact inLine
  have braceKind (kind : Token.Kind) (c : Char) (inLine : kind.startsLine = false)
      (previous : Option Char) (text : List Char) (lexeme : Lexeme)
      (found : brace kind c previous text = some lexeme) : lexeme.kind.startsLine = false := by
    cases text with
    | nil => cases found
    | cons d rest =>
        obtain ⟨-, ⟨⟩⟩ := Option.ite_none_right_eq_some.mp found
        exact inLine
  simp only [rules, List.forall_mem_cons]
  refine ⟨plainKind _ _ rfl, plainKind _ _ rfl, plainKind _ _ rfl, plainKind _ _ rfl,
    plainKind _ _ rfl, braceKind _ _ rfl, braceKind _ _ rfl, plainKind _ _ rfl, plainKind _ _ rfl,
    plainKind _ _ rfl, plainKind _ _ rfl, plainKind _ _ rfl, plainKind _ _ rfl, plainKind _ _ rfl,
    plainKind _ _ rfl, plainKind _ _ rfl, ?_⟩
  exact List.forall_mem_nil _

theorem find?_startsLine {firstOnLine : Bool} {previous : Option Char} {text : List Char}
    {lexeme : Lexeme} (found : find? firstOnLine previous text = some lexeme)
    (starts : lexeme.kind.startsLine = true) : firstOnLine = true := by
  cases firstOnLine with
  | true => rfl
  | false =>
      obtain ⟨rule, tried, reads⟩ := List.exists_of_findSome?_eq_some found
      rw [not_startsLine_of_mem rule tried _ _ _ reads] at starts
      cases starts

end Lexeme

namespace Scanner

open Text (blankLine)

/-- Between two places of a text lies what the later one has behind it and the earlier one has
not. -/
theorem StandsIn.before_eq {s here : Scanner} {text : List Char} (later : here.StandsIn text)
    (stands : s.StandsIn text) (order : s.idx ≤ here.idx) :
    here.before = (text.extract s.idx here.idx).reverse ++ s.before := by
  have parts : text.take here.idx = text.take s.idx ++ text.extract s.idx here.idx := by
    rw [List.extract, ← List.take_add, Nat.add_sub_cancel' order]
  rw [later.take_idx, stands.take_idx] at parts
  rw [← List.reverse_inj, parts, List.reverse_append, List.reverse_reverse]

theorem StandsIn.blankLine_iff {s : Scanner} {text : List Char} (stands : s.StandsIn text) :
    blankLine s.before = true ↔ ∀ c ∈ Text.lineHead text s.idx, Text.isBlank c = true := by
  rw [blankLine, List.all_eq_true, Text.lineHead, stands.take_idx, List.reverse_reverse]
  simp only [List.mem_reverse]

/-- The places at which at most `n` tokens are read. -/
def placesUpTo : Nat → Scanner → List Scanner
  | 0, _ => []
  | n + 1, s =>
      let here := s.skipBlanks
      if here.atEnd then []
      else
        match here.next? with
        | none => [here]
        | some (_, after) => here :: placesUpTo n after

def places (s : Scanner) : List Scanner :=
  placesUpTo (s.rest.length + 1) s

variable {s here : Scanner} {text : List Char}

/-- The scanner is between two tokens: at the start or at the end of the text, or behind a token
on a line that is not blank. -/
structure Between (s : Scanner) (text : List Char) : Prop where
  stands : s.StandsIn text
  line : s.before = [] ∨ s.rest = [] ∨ blankLine s.before = false

theorem between_ofText (text : String) : (ofText text).Between (joinContinued text.toList) :=
  ⟨standsIn_ofText text, Or.inl rfl⟩

theorem Between.solid (between : s.Between text) (moved : 0 < s.idx) (more : s.idx < text.length) :
    blankLine s.before = false := by
  refine (between.line.resolve_left fun atStart => ?_).resolve_left fun atEnd => ?_
  · rw [between.stands.idx, atStart] at moved
    exact absurd moved (Nat.lt_irrefl 0)
  · have whole := between.stands.length_rest
    rw [atEnd, List.length_nil] at whole
    omega

/-- White space does not change whether a line is blank, and a newline starts a blank one. -/
theorem passBlanks_blankLine (before : List Char) (idx column : Nat) (lineStart : Bool)
    (rest : List Char) (same : lineStart = blankLine before) :
    let here := passBlanks before idx column lineStart rest
    here.lineStart = blankLine here.before := by
  fun_induction passBlanks before idx column lineStart rest with
  | case1 before idx column lineStart rest ih => exact ih rfl
  | case2 before idx column lineStart c rest inLine blank ih =>
      refine ih ?_
      rw [Text.blankLine_cons inLine, blank, Bool.true_and, same]
  | case3 => exact same
  | case4 => exact same

theorem Between.lineStart (between : s.Between text) (more : s.skipBlanks.rest ≠ []) :
    s.skipBlanks.lineStart = blankLine s.skipBlanks.before := by
  refine passBlanks_blankLine _ _ _ _ _ ?_
  rcases between.line with atStart | atEnd | solid
  · rw [between.stands.idx, atStart]
    rfl
  · rw [skipBlanks_rest, atEnd] at more
    exact absurd rfl more
  · rw [solid, between.stands.idx, decide_eq_false_iff_not, List.length_eq_zero_iff]
    intro empty
    rw [empty] at solid
    cases solid

/-- What one step of the scan does. -/
theorem next?_eq_some {token : Token} {after : Scanner} (reads : here.next? = some (token, after)) :
    ∃ lexeme, Lexeme.find? here.lineStart here.before.head? here.rest = some lexeme ∧
      token = here.token lexeme.kind (String.ofList lexeme.text) ∧
      after = here.forward lexeme.extent := by
  obtain ⟨lexeme, found, same⟩ := Option.map_eq_some_iff.mp reads
  obtain ⟨rfl, rfl⟩ := Prod.mk.inj same
  exact ⟨lexeme, found, rfl, rfl⟩

/-- What one step of the scan keeps. -/
theorem Between.next (between : s.Between text) {token : Token} {after : Scanner}
    (reads : s.skipBlanks.next? = some (token, after)) : after.Between text := by
  obtain ⟨lexeme, found, -, rfl⟩ := next?_eq_some reads
  have fits := Lexeme.find?_fits found
  refine ⟨between.stands.skipBlanks.forward _ fits.extent_le, Or.inr ?_⟩
  rcases Lexeme.find?_endsOnLine s.skipBlanks_solid found with solid | whole
  · right
    have piece : s.skipBlanks.rest.take lexeme.extent = lexeme.kind.opening ++ lexeme.text := by
      rw [fits.extent_eq]
      exact (List.prefix_iff_eq_take.mp fits.front).symm
    change blankLine ((s.skipBlanks.rest.take lexeme.extent).reverse ++ _) = false
    rw [piece]
    exact Text.not_blankLine_append solid _
  · left
    change s.skipBlanks.rest.drop lexeme.extent = []
    rw [fits.extent_eq, whole, List.drop_length]

/-- The places of a scan that goes on from `s`, and the tokens that are read at them. -/
inductive Along (text : List Char) : Scanner → List Scanner → List Token → Prop
  | done {s : Scanner} : Along text s [] []
  | next {s after : Scanner} {places : List Scanner} {token : Token} {tokens : List Token}
      (between : s.Between text) (more : s.skipBlanks.rest ≠ [])
      (reads : s.skipBlanks.next? = some (token, after)) (later : Along text after places tokens) :
      Along text s (s.skipBlanks :: places) (token :: tokens)

theorem Between.along (n : Nat) : ∀ {s : Scanner}, s.Between text →
    Along text s (placesUpTo n s) (scanUpTo n s).tokens := by
  induction n with
  | zero => exact fun _ => .done
  | succ n ih =>
      intro s between
      rw [placesUpTo, scanUpTo, between.stands.skipBlanks.atEnd]
      cases ahead : s.skipBlanks.rest with
      | nil => exact .done
      | cons c rest =>
          obtain ⟨lexeme, found⟩ := Lexeme.find?_exists s.skipBlanks.lineStart
            s.skipBlanks.before.head? c rest (skipBlanks_inLine ahead)
          have reads : s.skipBlanks.next? =
              some (s.skipBlanks.token lexeme.kind (String.ofList lexeme.text),
                s.skipBlanks.forward lexeme.extent) := by
            rw [next?, ahead, found]
            rfl
          simp only [reads]
          exact .next between (by simp [ahead]) reads (ih (between.next reads))

/-- A place of a scan that goes on from `s`. -/
structure IsPlace (here s : Scanner) (text : List Char) : Prop where
  stands : here.StandsIn text
  lineStart : here.lineStart = blankLine here.before
  solid : ∃ c, here.rest.head? = some c ∧ Text.isBlank c = false
  behind : s.idx ≤ here.idx

theorem Between.isPlace (between : s.Between text) (more : s.skipBlanks.rest ≠ []) :
    s.skipBlanks.IsPlace s text := by
  obtain ⟨c, rest, ahead⟩ := List.exists_cons_of_ne_nil more
  have first : s.skipBlanks.rest.head? = some c := by rw [ahead]; rfl
  refine ⟨between.stands.skipBlanks, between.lineStart more,
    ⟨c, first, s.skipBlanks_solid c first⟩, ?_⟩
  rw [skipBlanks_idx]
  exact Nat.le_add_right _ _

theorem IsPlace.inside (isPlace : here.IsPlace s text) : here.idx < text.length := by
  obtain ⟨c, first, -⟩ := isPlace.solid
  obtain ⟨rest, ahead⟩ := List.head?_eq_some_iff.mp first
  have whole := isPlace.stands.length_rest
  rw [ahead, List.length_cons] at whole
  omega

theorem Along.isPlace {places : List Scanner} {tokens : List Token}
    (along : Along text s places tokens) : ∀ here ∈ places, here.IsPlace s text := by
  induction along with
  | done => exact fun here member => absurd member List.not_mem_nil
  | @next s after places token tokens between more reads later ih =>
      refine List.forall_mem_cons.mpr ⟨between.isPlace more, fun here member => ?_⟩
      obtain ⟨stands, lineStart, solid, behind⟩ := ih here member
      obtain ⟨lexeme, -, -, rfl⟩ := next?_eq_some reads
      refine ⟨stands, lineStart, solid, ?_⟩
      calc s.idx
        _ ≤ s.skipBlanks.idx := (between.isPlace more).behind
        _ ≤ s.skipBlanks.idx + lexeme.extent := Nat.le_add_right _ _
        _ ≤ here.idx := behind

theorem Along.reads {places : List Scanner} {tokens : List Token}
    (along : Along text s places tokens) :
    places.map (fun here => here.next?.map Prod.fst) = tokens.map some := by
  induction along with
  | done => rfl
  | next between more reads later ih => rw [List.map_cons, List.map_cons, reads, ih]; rfl

/-- Behind a token and on its last line, nothing counts as the start of a line. -/
theorem Along.behind {places : List Scanner} {tokens : List Token}
    (along : Along text s places tokens) : ∀ (i j : Nat) (token : Token) (here : Scanner), i < j →
    tokens[i]? = some token → places[j]? = some here →
      '\n' ∉ text.extract token.stop here.idx → here.lineStart = false := by
  induction along with
  | done => exact fun i j token here _ isToken => nomatch isToken
  | @next s after places token tokens between more reads later ih =>
      intro i j token' here order isToken isHere onLine
      obtain ⟨j, rfl⟩ := Nat.exists_eq_add_one_of_ne_zero (Nat.ne_zero_of_lt order)
      rw [List.getElem?_cons_succ] at isHere
      cases i with
      | succ i => exact ih i j token' here (Nat.lt_of_succ_lt_succ order) isToken isHere onLine
      | zero =>
          obtain rfl := Option.some.inj isToken
          have isPlace := later.isPlace here (List.mem_of_getElem? isHere)
          have next := between.next reads
          have behind : token.stop = after.idx ∧ 0 < after.idx := by
            obtain ⟨lexeme, found, rfl, rfl⟩ := next?_eq_some reads
            have fits := Lexeme.find?_fits found
            exact ⟨token_stop _ fits, Nat.add_pos_right _ fits.extent_pos⟩
          have solid : blankLine after.before = false :=
            next.solid behind.2 (Nat.lt_of_le_of_lt isPlace.behind isPlace.inside)
          rw [behind.1, ← List.mem_reverse] at onLine
          rw [isPlace.lineStart, isPlace.stands.before_eq next.stands isPlace.behind,
            Text.blankLine_append onLine, solid, Bool.and_false]

/-- Exactly the places that have only white space before them on their line count as line starts.
So the tokens that are only found at a line start are the first thing on their line, and behind a
token, on the line where it ends, there is no line start, also if the token goes over lines. -/
theorem scan_lineStarts (text : String) :
    let source := joinContinued text.toList
    let places := (ofText text).places
    let tokens := (ofText text).scan.tokens
    places.map (fun here => here.next?.map Prod.fst) = tokens.map some ∧
      (∀ here ∈ places,
        here.lineStart = true ↔ ∀ c ∈ Text.lineHead source here.idx, Text.isBlank c = true) ∧
      (∀ token ∈ tokens, token.kind.startsLine = true →
        (∀ c ∈ Text.lineHead source token.idx, Text.isBlank c = true) ∧
          ∃ c, source[token.idx]? = some c ∧ Text.isBlank c = false) ∧
      ∀ (i j : Nat) (token : Token) (here : Scanner), i < j → tokens[i]? = some token →
        places[j]? = some here → '\n' ∉ source.extract token.stop here.idx →
          here.lineStart = false := by
  intro source places tokens
  have along : Along source (ofText text) places tokens := (between_ofText text).along _
  have blankBefore (here : Scanner) (member : here ∈ places) :
      here.lineStart = true ↔ ∀ c ∈ Text.lineHead source here.idx, Text.isBlank c = true := by
    have isPlace := along.isPlace here member
    rw [isPlace.lineStart, isPlace.stands.blankLine_iff]
  refine ⟨along.reads, blankBefore, fun token member starts => ?_, along.behind⟩
  have isRead : some token ∈ places.map fun here => here.next?.map Prod.fst := by
    rw [along.reads]
    exact List.mem_map_of_mem member
  obtain ⟨here, isHere, gives⟩ := List.mem_map.mp isRead
  obtain ⟨⟨_, after⟩, reads, rfl⟩ := Option.map_eq_some_iff.mp gives
  obtain ⟨lexeme, found, rfl, -⟩ := next?_eq_some reads
  have isPlace := along.isPlace here isHere
  refine ⟨(blankBefore here isHere).mp (Lexeme.find?_startsLine found starts), ?_⟩
  obtain ⟨c, first, solid⟩ := isPlace.solid
  refine ⟨c, ?_, solid⟩
  rw [← isPlace.stands.drop_idx, List.head?_drop] at first
  exact first

/-- The name behind a comment of two lines is not at the start of a line, and so it is no
attribute. -/
theorem scan_lineStarts_comment :
    let text := "Item \x7b\n/* a\n*/ width: 1\n\x7d"
    let source := joinContinued text.toList
    let places := (ofText text).places
    let tokens := (ofText text).scan.tokens
    let object : Token := ⟨.component, "Item", 0, 0⟩
    let comment : Token := ⟨.comment, "/* a\n*/", 7, 0⟩
    (object ∈ tokens ∧ object.kind.startsLine = true ∧
        ∃ c, source[object.idx]? = some c ∧ Text.isBlank c = false) ∧
      ∃ here ∈ places, here.idx = 15 ∧ tokens[2]? = some comment ∧ places[3]? = some here ∧
        '\n' ∉ source.extract comment.stop here.idx ∧ here.lineStart = false ∧
        ¬∀ c ∈ Text.lineHead source here.idx, Text.isBlank c = true := by
  intro text source places tokens object comment
  obtain ⟨-, blankBefore, first, behind⟩ := scan_lineStarts text
  have isObject : object ∈ tokens := by decide +kernel
  have isComment : tokens[2]? = some comment := by decide +kernel
  obtain ⟨here, isHere, isIdx⟩ : ∃ here, places[3]? = some here ∧ here.idx = 15 :=
    Option.map_eq_some_iff.mp (show places[3]?.map Scanner.idx = some 15 by decide +kernel)
  have onLine : '\n' ∉ source.extract comment.stop here.idx := by
    rw [isIdx]
    decide +kernel
  have inside := behind 2 3 comment here (by decide) isComment isHere onLine
  have isPlace := List.mem_of_getElem? isHere
  refine ⟨⟨isObject, rfl, (first object isObject rfl).2⟩, here, isPlace, isIdx, isComment, isHere,
    onLine, inside, fun blank => ?_⟩
  rw [(blankBefore here isPlace).mpr blank] at inside
  cases inside

end Scanner

end QmlDoc
