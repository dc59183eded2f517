import QmlDoc.Proofs.Block
import QmlDoc.Proofs.LexemeFits

set_option autoImplicit false

namespace QmlDoc

/-- Kinds of tokens that hold a piece of the text as it is, braces included. -/
def Token.Kind.isVerbatim : Token.Kind → Bool
  | comment | inlineComment | string | importLine | pragmaLine => true
  | _ => false

def isBrace (c : Char) : Bool :=
  c = '\x7b' || c = '\x7d'

/-- The kind of the token that a brace makes; `quoted` tells that an apostrophe is beside it. -/
def braceKind (c : Char) (quoted : Bool) : Token.Kind :=
  if quoted then .char else if c = '\x7b' then .blockStart else .blockEnd

theorem isBrace_iff (c : Char) : isBrace c = true ↔ c = '\x7b' ∨ c = '\x7d' := by
  simp [isBrace]

/-- A class of characters that holds neither brace holds no brace. -/
theorem isBrace_of_class (p : Char → Bool) (left : p '\x7b' = false) (right : p '\x7d' = false)
    {c : Char} (inClass : p c = true) : isBrace c = false := by
  by_contra braced
  rw [Bool.not_eq_false, isBrace_iff] at braced
  rcases braced with rfl | rfl
  · rw [left] at inClass
    cases inClass
  · rw [right] at inClass
    cases inClass

namespace Lexeme

/-- At a brace only a block token or a single character fits. -/
theorem find?_of_brace (firstOnLine : Bool) (previous : Option Char) (c : Char)
    (rest : List Char) (braced : isBrace c = true) :
    find? firstOnLine previous (c :: rest) =
      some ⟨braceKind c (previous = some '\'' || rest.head? = some '\''), 0, [c]⟩ := by
  have noName : isNameChar c = false := by
    rcases (isBrace_iff c).mp braced with rfl | rfl <;> decide
  have noWord : Text.isWord c = false := by
    rcases (isBrace_iff c).mp braced with rfl | rfl <;> decide
  have noInline (second : Char) (styles : List Char) :
      opensInline '/' second styles (c :: rest) = false := by
    by_contra opens
    obtain ⟨further, starts⟩ := opensInline_cons _ _ _ _ (Bool.of_not_eq_false opens)
    obtain ⟨rfl, -⟩ := List.cons.inj starts
    cases braced
  have inLine : rules.findSome? (fun rule => rule previous (c :: rest)) =
      some ⟨braceKind c (previous = some '\'' || rest.head? = some '\''), 0, [c]⟩ := by
    rcases (isBrace_iff c).mp braced with rfl | rfl <;>
      by_cases quoted : previous = some '\'' || rest.head? = some '\'' <;>
      simp [rules, plain, inlineBlock, inlineLines, noInline, blockComment, lineComment,
        opensLine, stringLiteral, brace, exactly, directive, memberKeyword, wordsBefore,
        wordBefore, functionKeyword, element, noWord, singleChar, List.isPrefixOf?, braceKind,
        quoted]
  have noLine : lineRules.findSome? (fun rule => rule previous (c :: rest)) = none := by
    rcases (isBrace_iff c).mp braced with rfl | rfl <;>
      simp [lineRules, plain, inlineComponent, nameBefore, noName, List.isPrefixOf?]
  cases firstOnLine with
  | true =>
      rw [find?, if_pos rfl, List.findSome?_append, noLine, inLine]
      rfl
  | false => exact inLine

def Braceless (chars : List Char) : Prop :=
  ∀ c ∈ chars, isBrace c = false

instance (chars : List Char) : Decidable (Braceless chars) :=
  decidable_of_iff (chars.all (!isBrace ·) = true) (by simp [Braceless])

theorem Braceless.append {first later : List Char} (one : Braceless first)
    (other : Braceless later) : Braceless (first ++ later) := by
  intro c member
  rcases List.mem_append.mp member with member | member
  · exact one c member
  · exact other c member

theorem braceless_takeWhile (p : Char → Bool) (left : p '\x7b' = false)
    (right : p '\x7d' = false) (text : List Char) : Braceless (text.takeWhile p) := by
  intro c member
  have inClass : p c = true := List.all_eq_true.mp List.all_takeWhile c member
  exact isBrace_of_class p left right inClass

/-- What is found in a text that starts with no brace holds no brace. -/
def FindsNoBrace (read : List Char → Option (List Char)) : Prop :=
  ∀ c rest found, isBrace c = false → read (c :: rest) = some found → Braceless found

theorem exactly_noBrace (form : List Char) (clean : Braceless form) :
    FindsNoBrace (exactly form) := by
  intro c rest found _ read
  rw [exactly] at read
  split at read
  · obtain rfl := Option.some.inj read
    exact clean
  · cases read

theorem wordBefore_eq {word text found : List Char} (read : wordBefore word text = some found) :
    found = word := by
  unfold wordBefore at read
  split at read
  · obtain ⟨-, ⟨⟩⟩ := Option.ite_none_right_eq_some.mp read
    rfl
  · cases read

theorem wordBefore_noBrace (word : List Char) (clean : Braceless word) :
    FindsNoBrace (wordBefore word) := by
  intro c rest found _ read
  rw [wordBefore_eq read]
  exact clean

theorem wordsBefore_noBrace (first second : List Char) (cleanFirst : Braceless first)
    (cleanSecond : Braceless second) : FindsNoBrace (wordsBefore first second) := by
  intro c rest found _ read
  unfold wordsBefore at read
  split at read
  · cases read
  · rename_i after parted
    obtain ⟨-, read⟩ := Option.ite_none_left_eq_some.mp read
    obtain ⟨later, readLater, rfl⟩ := Option.map_eq_some_iff.mp read
    rw [wordBefore_eq readLater]
    have gap : Braceless (Text.spanBlank after).1 :=
      braceless_takeWhile Text.isBlank (by decide) (by decide) after
    exact (cleanFirst.append gap).append cleanSecond

theorem FindsNoBrace.or {first second : List Char → Option (List Char)}
    (one : FindsNoBrace first) (other : FindsNoBrace second) :
    FindsNoBrace fun text => (first text).or (second text) := by
  intro c rest found clean read
  rcases Option.or_eq_some_iff.mp read with read | ⟨-, read⟩
  · exact one c rest found clean read
  · exact other c rest found clean read

theorem memberKeyword_noBrace : FindsNoBrace memberKeyword :=
  (wordsBefore_noBrace _ _ (by decide) (by decide)).or <|
    (wordBefore_noBrace _ (by decide)).or <|
    (wordsBefore_noBrace _ _ (by decide) (by decide)).or <|
    (wordBefore_noBrace _ (by decide)).or <| wordBefore_noBrace _ (by decide)

theorem functionKeyword_noBrace : FindsNoBrace functionKeyword := by
  intro c rest found _ read
  unfold functionKeyword at read
  split at read
  · cases read
  · obtain ⟨-, ⟨⟩⟩ := Option.ite_none_right_eq_some.mp read
    decide

theorem element_noBrace : FindsNoBrace element := by
  intro c rest found clean read
  obtain ⟨-, ⟨⟩⟩ := Option.ite_none_right_eq_some.mp read
  intro d member
  rcases List.mem_cons.mp member with rfl | member
  · exact clean
  · exact braceless_takeWhile _ (by decide) (by decide) rest d member

theorem singleChar_noBrace : FindsNoBrace singleChar := by
  intro c rest found clean read
  obtain ⟨-, ⟨⟩⟩ := Option.ite_none_left_eq_some.mp read
  intro d member
  rw [List.mem_singleton.mp member]
  exact clean

theorem nameBefore_noBrace (mark : Char) : FindsNoBrace (nameBefore mark) := by
  intro c rest found _ read
  obtain ⟨-, ⟨⟩⟩ := Option.ite_none_right_eq_some.mp read
  exact braceless_takeWhile isNameChar (by decide) (by decide) (c :: rest)

/-- Where the text starts with no brace, a rule finds a verbatim lexeme, or one that holds no
brace and is no block token. -/
def Rule.PassesBraces (rule : Rule) : Prop :=
  ∀ previous c rest lexeme, isBrace c = false → rule previous (c :: rest) = some lexeme →
    lexeme.kind.isVerbatim = false →
      Braceless (lexeme.kind.opening ++ lexeme.text) ∧ blockBalance [lexeme.kind] = 0

theorem plain_verbatim (kind : Token.Kind) (read : List Char → Option (List Char))
    (verbatim : kind.isVerbatim = true) : Rule.PassesBraces (plain kind read) := by
  intro previous c rest lexeme _ found other
  obtain ⟨value, -, rfl⟩ := Option.map_eq_some_iff.mp found
  rw [verbatim] at other
  cases other

theorem plain_passesBraces (kind : Token.Kind) (read : List Char → Option (List Char))
    (unmarked : kind.opening = []) (noBlock : blockBalance [kind] = 0)
    (clean : FindsNoBrace read) : Rule.PassesBraces (plain kind read) := by
  intro previous c rest lexeme start found _
  obtain ⟨value, readValue, rfl⟩ := Option.map_eq_some_iff.mp found
  refine ⟨?_, noBlock⟩
  rw [unmarked]
  exact clean c rest value start readValue

theorem brace_passesBraces (kind : Token.Kind) (mark : Char) (braced : isBrace mark = true) :
    Rule.PassesBraces (brace kind mark) := by
  intro previous c rest lexeme start found _
  obtain ⟨here, -⟩ := Option.ite_none_right_eq_some.mp found
  simp only [Bool.and_eq_true, decide_eq_true_eq] at here
  rw [here.1, braced] at start
  cases start

theorem inlineComponent_passesBraces : Rule.PassesBraces inlineComponent := by
  intro previous c rest lexeme _ found _
  unfold inlineComponent at found
  split at found
  · cases found
  · rename_i after parted
    obtain ⟨-, ⟨⟩⟩ := Option.ite_none_left_eq_some.mp found
    have opening : Braceless "component ".toList := by decide
    exact ⟨opening.append (braceless_takeWhile isNameChar (by decide) (by decide) after), rfl⟩

theorem passesBraces_of_mem : ∀ rule ∈ lineRules ++ rules, Rule.PassesBraces rule := by
  simp only [lineRules, rules, List.cons_append, List.nil_append, List.forall_mem_cons]
  refine ⟨inlineComponent_passesBraces, ?_⟩
  refine ⟨plain_passesBraces _ _ rfl rfl (nameBefore_noBrace _), ?_⟩
  refine ⟨plain_passesBraces _ _ rfl rfl (nameBefore_noBrace _), ?_⟩
  refine ⟨plain_verbatim _ _ rfl, plain_verbatim _ _ rfl, plain_verbatim _ _ rfl, ?_⟩
  refine ⟨plain_verbatim _ _ rfl, plain_verbatim _ _ rfl, ?_⟩
  refine ⟨brace_passesBraces _ _ rfl, brace_passesBraces _ _ rfl, ?_⟩
  refine ⟨plain_passesBraces _ _ rfl rfl (exactly_noBrace _ (by decide)), ?_⟩
  refine ⟨plain_passesBraces _ _ rfl rfl (exactly_noBrace _ (by decide)), ?_⟩
  refine ⟨plain_verbatim _ _ rfl, plain_verbatim _ _ rfl, ?_⟩
  refine ⟨plain_passesBraces _ _ rfl rfl memberKeyword_noBrace, ?_⟩
  refine ⟨plain_passesBraces _ _ rfl rfl functionKeyword_noBrace, ?_⟩
  refine ⟨plain_passesBraces _ _ rfl rfl (exactly_noBrace _ (by decide)), ?_⟩
  refine ⟨plain_passesBraces _ _ rfl rfl element_noBrace, ?_⟩
  refine ⟨plain_passesBraces _ _ rfl rfl singleChar_noBrace, ?_⟩
  exact List.forall_mem_nil _

theorem find?_away {firstOnLine : Bool} {previous : Option Char} {c : Char} {rest : List Char}
    {lexeme : Lexeme} (found : find? firstOnLine previous (c :: rest) = some lexeme)
    (start : isBrace c = false) (other : lexeme.kind.isVerbatim = false) :
    Braceless (lexeme.kind.opening ++ lexeme.text) ∧ blockBalance [lexeme.kind] = 0 := by
  obtain ⟨rule, tried, fits⟩ := find?_rule found
  exact passesBraces_of_mem rule tried previous c rest lexeme start fits other

/-- Whatever the text starts with, a verbatim lexeme is no block token. -/
theorem isVerbatim_noBlock (kind : Token.Kind) :
    kind.isVerbatim = true → blockBalance [kind] = 0 := by
  cases kind <;> decide

end Lexeme

end QmlDoc
