import Mathlib.Data.List.Basic
import QmlDoc.Token.Lexeme

set_option autoImplicit false

namespace QmlDoc.Lexeme

/-- What is found is a front part of the text and not empty. -/
def FindsFront (read : List Char → Option (List Char)) : Prop :=
  ∀ text found, read text = some found → found <+: text ∧ found ≠ []

theorem throughClose_front : FindsFront throughClose := by
  intro text
  fun_induction throughClose text with
  | case1 rest =>
      intro found read
      obtain rfl := Option.some.inj read
      exact ⟨⟨rest, rfl⟩, List.cons_ne_nil _ _⟩
  | case2 c rest _ ih =>
      intro found read
      obtain ⟨later, readLater, rfl⟩ := Option.map_eq_some_iff.mp read
      exact ⟨List.cons_prefix_cons.mpr ⟨rfl, (ih later readLater).1⟩, List.cons_ne_nil _ _⟩
  | case3 => intro found read; cases read

theorem lineRun_front (opens : List Char → Bool) (text : List Char) :
    lineRun opens text <+: text := by
  fun_induction lineRun opens text with
  | case1 => exact List.prefix_rfl
  | case2 rest _ ih => exact List.cons_prefix_cons.mpr ⟨rfl, ih⟩
  | case3 => exact List.nil_prefix
  | case4 c rest _ ih => exact List.cons_prefix_cons.mpr ⟨rfl, ih⟩

theorem lineRun_ne_nil (opens : List Char → Bool) (c : Char) (rest : List Char)
    (inLine : c ≠ '\n') : lineRun opens (c :: rest) ≠ [] := by
  rw [lineRun, if_neg inLine]
  exact List.cons_ne_nil _ _

theorem stringRest_front (quote : Char) : FindsFront (stringRest quote) := by
  intro text
  fun_induction stringRest quote text with
  | case1 => intro found read; cases read
  | case2 rest => intro found read; cases read
  | case3 c rest _ ih =>
      intro found read
      obtain ⟨later, readLater, rfl⟩ := Option.map_eq_some_iff.mp read
      refine ⟨?_, List.cons_ne_nil _ _⟩
      exact List.cons_prefix_cons.mpr ⟨rfl, List.cons_prefix_cons.mpr ⟨rfl, (ih later readLater).1⟩⟩
  | case4 rest =>
      intro found read
      obtain rfl := Option.some.inj read
      exact ⟨⟨rest, rfl⟩, List.cons_ne_nil _ _⟩
  | case5 c rest _ _ ih =>
      intro found read
      obtain ⟨later, readLater, rfl⟩ := Option.map_eq_some_iff.mp read
      exact ⟨List.cons_prefix_cons.mpr ⟨rfl, (ih later readLater).1⟩, List.cons_ne_nil _ _⟩

theorem inlineBlock_front : FindsFront inlineBlock := by
  intro text found read
  rw [inlineBlock] at read
  split at read
  · obtain ⟨later, readLater, rfl⟩ := Option.map_eq_some_iff.mp read
    obtain ⟨inside, nonempty⟩ := throughClose_front _ _ readLater
    refine ⟨?_, fun empty => nonempty (List.append_eq_nil_iff.mp empty).2⟩
    calc text.take 4 ++ later
      _ <+: text.take 4 ++ text.drop 4 := (List.prefix_append_right_inj _).mpr inside
      _ = text := List.take_append_drop 4 text
  · cases read

/-- The front of an inline comment is no newline. -/
theorem opensInline_cons (open₁ open₂ : Char) (styles text : List Char)
    (opens : opensInline open₁ open₂ styles text = true) : ∃ rest, text = open₁ :: rest := by
  unfold opensInline at opens
  split at opens
  · simp only [Bool.and_eq_true, decide_eq_true_eq] at opens
    exact ⟨_, congrArg (· :: _) opens.1.1⟩
  · cases opens

theorem inlineLines_front : FindsFront inlineLines := by
  intro text found read
  rw [inlineLines] at read
  split at read
  · rename_i opens
    obtain rfl := Option.some.inj read
    refine ⟨lineRun_front _ _, ?_⟩
    obtain ⟨rest, rfl⟩ := opensInline_cons _ _ _ _ opens
    exact lineRun_ne_nil _ _ _ (by decide)
  · cases read

theorem blockComment_front : FindsFront blockComment := by
  intro text found read
  unfold blockComment at read
  split at read
  · obtain ⟨later, readLater, rfl⟩ := Option.map_eq_some_iff.mp read
    have inside := (throughClose_front _ _ readLater).1
    refine ⟨?_, List.cons_ne_nil _ _⟩
    exact List.cons_prefix_cons.mpr ⟨rfl, List.cons_prefix_cons.mpr ⟨rfl, inside⟩⟩
  · cases read

theorem lineComment_front : FindsFront lineComment := by
  intro text found read
  rw [lineComment] at read
  split at read
  · rename_i opens
    obtain rfl := Option.some.inj read
    refine ⟨lineRun_front _ _, ?_⟩
    unfold opensLine at opens
    split at opens
    · exact lineRun_ne_nil _ _ _ (by decide)
    · cases opens
  · cases read

theorem stringLiteral_front : FindsFront stringLiteral := by
  intro text found read
  unfold stringLiteral at read
  split at read
  · split at read
    · obtain ⟨later, readLater, rfl⟩ := Option.map_eq_some_iff.mp read
      have inside := (stringRest_front _ _ _ readLater).1
      exact ⟨List.cons_prefix_cons.mpr ⟨rfl, inside⟩, List.cons_ne_nil _ _⟩
    · cases read
  · cases read

theorem exactly_front (form : List Char) (nonempty : form ≠ []) : FindsFront (exactly form) := by
  intro text found read
  rw [exactly] at read
  split at read
  · rename_i starts
    obtain rfl := Option.some.inj read
    exact ⟨List.isPrefixOf_iff_prefix.mp starts, nonempty⟩
  · cases read

/-- A word, the white space behind it and a front part of what follows are a front part. -/
theorem gap_front (word after found : List Char) (inside : found <+: after.dropWhile Text.isBlank) :
    word ++ after.takeWhile Text.isBlank ++ found <+: word ++ after := by
  rw [List.append_assoc, List.prefix_append_right_inj]
  calc after.takeWhile Text.isBlank ++ found
    _ <+: after.takeWhile Text.isBlank ++ after.dropWhile Text.isBlank :=
        (List.prefix_append_right_inj _).mpr inside
    _ = after := List.takeWhile_append_dropWhile

theorem directive_front (word : List Char) (starts : List Char → Bool) (nonempty : word ≠ []) :
    FindsFront (directive word starts) := by
  intro text found read
  unfold directive at read
  split at read
  · cases read
  · rename_i after parted
    obtain rfl := List.isPrefixOf?_eq_some_iff_append_eq.mp parted
    obtain ⟨-, ⟨⟩⟩ := Option.ite_none_right_eq_some.mp read
    exact ⟨gap_front word after _ (List.takeWhile_prefix _), by simp [nonempty]⟩

theorem wordBefore_front (word : List Char) (nonempty : word ≠ []) :
    FindsFront (wordBefore word) := by
  intro text found read
  unfold wordBefore at read
  split at read
  · rename_i c after parted
    obtain rfl := List.isPrefixOf?_eq_some_iff_append_eq.mp parted
    obtain ⟨-, ⟨⟩⟩ := Option.ite_none_right_eq_some.mp read
    exact ⟨List.prefix_append _ _, nonempty⟩
  · cases read

theorem wordsBefore_front (first second : List Char) (nonempty : second ≠ []) :
    FindsFront (wordsBefore first second) := by
  intro text found read
  unfold wordsBefore at read
  split at read
  · cases read
  · rename_i after parted
    obtain rfl := List.isPrefixOf?_eq_some_iff_append_eq.mp parted
    obtain ⟨-, read⟩ := Option.ite_none_left_eq_some.mp read
    obtain ⟨later, readLater, rfl⟩ := Option.map_eq_some_iff.mp read
    obtain ⟨inside, later_ne⟩ := wordBefore_front second nonempty _ _ readLater
    refine ⟨gap_front first after later inside, fun empty => ?_⟩
    exact later_ne (List.append_eq_nil_iff.mp empty).2

theorem FindsFront.or {first second : List Char → Option (List Char)} (one : FindsFront first)
    (other : FindsFront second) : FindsFront fun text => (first text).or (second text) := by
  intro text found read
  rcases Option.or_eq_some_iff.mp read with read | ⟨-, read⟩
  · exact one text found read
  · exact other text found read

theorem memberKeyword_front : FindsFront memberKeyword :=
  (wordsBefore_front _ _ (by decide)).or <| (wordBefore_front _ (by decide)).or <|
    (wordsBefore_front _ _ (by decide)).or <| (wordBefore_front _ (by decide)).or <|
      wordBefore_front _ (by decide)

theorem functionKeyword_front : FindsFront functionKeyword := by
  intro text found read
  unfold functionKeyword at read
  split at read
  · cases read
  · rename_i after parted
    obtain rfl := List.isPrefixOf?_eq_some_iff_append_eq.mp parted
    obtain ⟨-, ⟨⟩⟩ := Option.ite_none_right_eq_some.mp read
    exact ⟨List.prefix_append _ _, by decide⟩

theorem element_front : FindsFront element := by
  intro text found read
  unfold element at read
  split at read
  · obtain ⟨-, ⟨⟩⟩ := Option.ite_none_right_eq_some.mp read
    exact ⟨List.cons_prefix_cons.mpr ⟨rfl, List.takeWhile_prefix _⟩, List.cons_ne_nil _ _⟩
  · cases read

theorem singleChar_front : FindsFront singleChar := by
  intro text found read
  unfold singleChar at read
  split at read
  · obtain ⟨-, ⟨⟩⟩ := Option.ite_none_left_eq_some.mp read
    exact ⟨⟨_, rfl⟩, List.cons_ne_nil _ _⟩
  · cases read

theorem nameBefore_front (mark : Char) : FindsFront (nameBefore mark) := by
  intro text found read
  obtain ⟨named, ⟨⟩⟩ := Option.ite_none_right_eq_some.mp read
  refine ⟨List.takeWhile_prefix _, fun empty => ?_⟩
  simp [empty] at named

end QmlDoc.Lexeme

namespace QmlDoc

/-- The characters of a form that stand before the value. -/
def Token.Kind.opening : Token.Kind → List Char
  | .inlineComponent => "component ".toList
  | _ => []

namespace Lexeme

/-- The text starts with the lexeme: with what its form has before the value, and the value. -/
structure Fits (lexeme : Lexeme) (text : List Char) : Prop where
  lead : lexeme.lead = lexeme.kind.opening.length
  front : lexeme.kind.opening ++ lexeme.text <+: text
  nonempty : lexeme.text ≠ []

namespace Fits

variable {lexeme : Lexeme} {text : List Char}

theorem extent_eq (fits : lexeme.Fits text) :
    lexeme.extent = (lexeme.kind.opening ++ lexeme.text).length := by
  rw [extent, fits.lead, List.length_append]

theorem extent_pos (fits : lexeme.Fits text) : 0 < lexeme.extent := by
  have some := List.length_pos_iff.mpr fits.nonempty
  rw [extent]
  omega

theorem extent_le (fits : lexeme.Fits text) : lexeme.extent ≤ text.length := by
  rw [fits.extent_eq]
  exact fits.front.length_le

end Fits

def Rule.IsFitting (rule : Rule) : Prop :=
  ∀ previous text lexeme, rule previous text = some lexeme → lexeme.Fits text

theorem plain_isFitting (kind : Token.Kind) (read : List Char → Option (List Char))
    (unmarked : kind.opening = []) (front : FindsFront read) :
    Rule.IsFitting (plain kind read) := by
  intro previous text lexeme found
  obtain ⟨value, readValue, rfl⟩ := Option.map_eq_some_iff.mp found
  obtain ⟨inside, nonempty⟩ := front text value readValue
  exact ⟨by rw [unmarked]; rfl, by rwa [unmarked], nonempty⟩

theorem brace_isFitting (kind : Token.Kind) (c : Char) (unmarked : kind.opening = []) :
    Rule.IsFitting (brace kind c) := by
  intro previous text lexeme found
  unfold brace at found
  split at found
  · obtain ⟨here, ⟨⟩⟩ := Option.ite_none_right_eq_some.mp found
    simp only [Bool.and_eq_true, decide_eq_true_eq] at here
    refine ⟨by rw [unmarked]; rfl, ?_, List.cons_ne_nil _ _⟩
    rw [unmarked, here.1]
    exact ⟨_, rfl⟩
  · cases found

theorem inlineComponent_isFitting : Rule.IsFitting inlineComponent := by
  intro previous text lexeme found
  unfold inlineComponent at found
  split at found
  · cases found
  · rename_i after parted
    obtain rfl := List.isPrefixOf?_eq_some_iff_append_eq.mp parted
    obtain ⟨named, ⟨⟩⟩ := Option.ite_none_left_eq_some.mp found
    refine ⟨rfl, (List.prefix_append_right_inj _).mpr (List.takeWhile_prefix _), ?_⟩
    simpa using named

theorem isFitting_of_mem : ∀ rule ∈ lineRules ++ rules, Rule.IsFitting rule := by
  simp only [lineRules, rules, List.cons_append, List.nil_append, List.forall_mem_cons]
  refine ⟨inlineComponent_isFitting, ?_⟩
  refine ⟨plain_isFitting _ _ rfl (nameBefore_front _), ?_⟩
  refine ⟨plain_isFitting _ _ rfl (nameBefore_front _), ?_⟩
  refine ⟨plain_isFitting _ _ rfl inlineBlock_front, plain_isFitting _ _ rfl inlineLines_front, ?_⟩
  refine ⟨plain_isFitting _ _ rfl blockComment_front, plain_isFitting _ _ rfl lineComment_front, ?_⟩
  refine ⟨plain_isFitting _ _ rfl stringLiteral_front, ?_⟩
  refine ⟨brace_isFitting _ _ rfl, brace_isFitting _ _ rfl, ?_⟩
  refine ⟨plain_isFitting _ _ rfl (exactly_front _ (by decide)), ?_⟩
  refine ⟨plain_isFitting _ _ rfl (exactly_front _ (by decide)), ?_⟩
  refine ⟨plain_isFitting _ _ rfl (directive_front _ _ (by decide)), ?_⟩
  refine ⟨plain_isFitting _ _ rfl (directive_front _ _ (by decide)), ?_⟩
  refine ⟨plain_isFitting _ _ rfl memberKeyword_front, ?_⟩
  refine ⟨plain_isFitting _ _ rfl functionKeyword_front, ?_⟩
  refine ⟨plain_isFitting _ _ rfl (exactly_front _ (by decide)), ?_⟩
  refine ⟨plain_isFitting _ _ rfl element_front, plain_isFitting _ _ rfl singleChar_front, ?_⟩
  exact List.forall_mem_nil _

/-- What is tried is one of the rules, on a new line or not. -/
theorem find?_rule {firstOnLine : Bool} {previous : Option Char} {text : List Char}
    {lexeme : Lexeme} (found : find? firstOnLine previous text = some lexeme) :
    ∃ rule ∈ lineRules ++ rules, rule previous text = some lexeme := by
  obtain ⟨rule, tried, fits⟩ := List.exists_of_findSome?_eq_some found
  refine ⟨rule, ?_, fits⟩
  cases firstOnLine with
  | true => exact tried
  | false => exact List.mem_append_right lineRules tried

theorem find?_fits {firstOnLine : Bool} {previous : Option Char} {text : List Char}
    {lexeme : Lexeme} (found : find? firstOnLine previous text = some lexeme) :
    lexeme.Fits text := by
  obtain ⟨rule, tried, fits⟩ := find?_rule found
  exact isFitting_of_mem rule tried previous text lexeme fits

/-- A single character is a token when nothing else fits. -/
theorem find?_exists (firstOnLine : Bool) (previous : Option Char) (c : Char) (rest : List Char)
    (inLine : c ≠ '\n') : ∃ lexeme, find? firstOnLine previous (c :: rest) = some lexeme := by
  have last : plain .char singleChar ∈ rules := by simp [rules]
  rw [← Option.isSome_iff_exists, find?, List.findSome?_isSome_iff]
  refine ⟨plain .char singleChar, ?_, ?_⟩
  · split
    · exact List.mem_append_right lineRules last
    · exact last
  · simp [plain, singleChar, inLine]

end Lexeme

end QmlDoc
