import QmlDoc.Proofs.LineStarts

set_option autoImplicit false

namespace QmlDoc

namespace Text

/-- The character at a place is escaped: before it stands a backslash that is not escaped. -/
def isEscaped (text : List Char) : Nat → Bool
  | 0 => false
  | place + 1 => text[place]? = some '\\' && !isEscaped text place

/-- The string that was opened by `quote` before the text ends at `stop`, with the first such
quote that is not escaped. No newline before it is escaped. -/
structure EndsString (quote : Char) (text : List Char) (stop : Nat) : Prop where
  closes : text[stop]? = some quote
  plain : isEscaped text stop = false
  first : ∀ place < stop, text[place]? = some quote → isEscaped text place = true
  lines : ∀ place < stop, text[place]? = some '\n' → isEscaped text place = false

/-- The block comment that was opened before the text ends with the two characters at `stop`. -/
structure EndsComment (text : List Char) (stop : Nat) : Prop where
  closes : "*/".toList <+: text.drop stop
  first : ∀ place < stop, ¬"*/".toList <+: text.drop place

def startsWithAny (marks : List String) (text : List Char) : Bool :=
  marks.any fun mark => mark.toList.isPrefixOf text

/-- The line, behind its spaces and tabs, starts with one of the marks. -/
def goesOn (marks : List String) (line : List Char) : Bool :=
  startsWithAny marks (line.dropWhile isIndent)

/-- The first line of a text, and the lines that follow as long as each of them goes on with one
of the marks. -/
def commentRun (marks : List String) (text : List Char) : List Char :=
  let lines := text.splitOn '\n'
  ['\n'].intercalate (lines.take 1 ++ (lines.drop 1).takeWhile (goesOn marks))

theorem startsWithAny_iff (marks : List String) (text : List Char) :
    startsWithAny marks text = true ↔ ∃ mark ∈ marks, mark.toList <+: text := by
  simp only [startsWithAny, List.any_eq_true, List.isPrefixOf_iff_prefix]

theorem isEscaped_cons {c : Char} (plain : c ≠ '\\') (rest : List Char) (place : Nat) :
    isEscaped (c :: rest) (place + 1) = isEscaped rest place := by
  induction place with
  | zero => simp [isEscaped, plain]
  | succ place ih => rw [isEscaped, ih, isEscaped, List.getElem?_cons_succ]

theorem isEscaped_pair (c : Char) (rest : List Char) (place : Nat) :
    isEscaped ('\\' :: c :: rest) (place + 2) = isEscaped rest place := by
  induction place with
  | zero => simp [isEscaped]
  | succ place ih =>
      rw [isEscaped, ih, isEscaped, List.getElem?_cons_succ, List.getElem?_cons_succ]

namespace EndsString

variable {quote : Char} {front rest : List Char} {stop : Nat}

/-- Behind a front part that escapes nothing behind it, a string ends where it would without that
part, unless it has ended before. -/
theorem append_iff
    (fresh : ∀ place, isEscaped (front ++ rest) (front.length + place) = isEscaped rest place) :
    EndsString quote (front ++ rest) (front.length + stop) ↔
      (∀ place < front.length,
        (front[place]? = some quote → isEscaped (front ++ rest) place = true) ∧
          (front[place]? = some '\n' → isEscaped (front ++ rest) place = false)) ∧
        EndsString quote rest stop := by
  have behind (place : Nat) : (front ++ rest)[front.length + place]? = rest[place]? := by
    rw [List.getElem?_append_right (Nat.le_add_right _ _), Nat.add_sub_cancel_left]
  constructor
  · rintro ⟨closes, plain, first, lines⟩
    refine ⟨fun place inside => ?_, ?_, ?_, fun place before here => ?_,
      fun place before here => ?_⟩
    · rw [← List.getElem?_append_left inside]
      exact ⟨first place (by omega), lines place (by omega)⟩
    · rwa [← behind]
    · rwa [← fresh]
    · rw [← fresh]
      exact first _ (by omega) (by rwa [behind])
    · rw [← fresh]
      exact lines _ (by omega) (by rwa [behind])
  · rintro ⟨passes, closes, plain, first, lines⟩
    have split (place : Nat) :
        place < front.length ∨ ∃ further, place = front.length + further := by
      rcases Nat.lt_or_ge place front.length with inside | further
      · exact Or.inl inside
      · exact Or.inr (Nat.exists_eq_add_of_le further)
    refine ⟨by rwa [behind], by rwa [fresh], fun place before here => ?_,
      fun place before here => ?_⟩
    · rcases split place with inside | ⟨further, rfl⟩
      · exact (passes place inside).1 (by rwa [← List.getElem?_append_left inside])
      · rw [fresh]
        exact first further (by omega) (by rwa [← behind])
    · rcases split place with inside | ⟨further, rfl⟩
      · exact (passes place inside).2 (by rwa [← List.getElem?_append_left inside])
      · rw [fresh]
        exact lines further (by omega) (by rwa [← behind])

theorem cons_iff {c : Char} (plain : c ≠ '\\') (other : c ≠ quote) :
    EndsString quote (c :: rest) stop ↔
      ∃ later, stop = later + 1 ∧ EndsString quote rest later := by
  cases stop with
  | zero =>
      refine iff_of_false (fun ends => other (Option.some.inj ends.closes)) ?_
      rintro ⟨later, none, -⟩
      cases none
  | succ later =>
      have shifted := @append_iff quote [c] rest later fun place => by
        rw [List.length_singleton, Nat.add_comm]
        exact isEscaped_cons plain rest place
      rw [List.length_singleton, Nat.add_comm 1 later] at shifted
      refine shifted.trans ?_
      simp [other, isEscaped]

/-- A backslash and the character behind it. -/
theorem pair_iff {c : Char} (other : quote ≠ '\\') :
    EndsString quote ('\\' :: c :: rest) stop ↔
      c ≠ '\n' ∧ ∃ later, stop = later + 2 ∧ EndsString quote rest later := by
  match stop with
  | 0 =>
      refine iff_of_false (fun ends => other (Option.some.inj ends.closes).symm) ?_
      rintro ⟨-, later, none, -⟩
      cases none
  | 1 =>
      refine iff_of_false (fun ends => ?_) ?_
      · have plain := ends.plain
        simp [isEscaped] at plain
      · rintro ⟨-, later, none, -⟩
        simp at none
  | later + 2 =>
      have shifted := @append_iff quote ['\\', c] rest later fun place => by
        rw [Nat.add_comm]
        exact isEscaped_pair c rest place
      rw [Nat.add_comm] at shifted
      refine shifted.trans ⟨?_, ?_⟩
      · rintro ⟨passes, ends⟩
        refine ⟨?_, later, rfl, ends⟩
        rintro rfl
        have plain := (passes 1 Nat.one_lt_two).2 rfl
        cases plain
      · rintro ⟨inLine, last, same, ends⟩
        obtain rfl : later = last := Nat.add_right_cancel same
        refine ⟨fun place inside => ?_, ends⟩
        match place with
        | 0 => exact ⟨fun isQuote => absurd (Option.some.inj isQuote).symm other, nofun⟩
        | 1 => exact ⟨fun _ => rfl, fun isNewline => absurd (Option.some.inj isNewline) inLine⟩

theorem quote_iff : EndsString quote (quote :: rest) stop ↔ stop = 0 := by
  constructor
  · intro ends
    cases stop with
    | zero => rfl
    | succ later =>
        have escaped := ends.first 0 (Nat.zero_lt_succ _) rfl
        cases escaped
  · rintro rfl
    exact ⟨rfl, rfl, fun place before => absurd before (Nat.not_lt_zero _),
      fun place before => absurd before (Nat.not_lt_zero _)⟩

end EndsString

namespace EndsComment

variable {text rest : List Char} {stop : Nat}

theorem cons_iff {c : Char} (other : ¬"*/".toList <+: c :: rest) :
    EndsComment (c :: rest) stop ↔ ∃ later, stop = later + 1 ∧ EndsComment rest later := by
  constructor
  · rintro ⟨closes, first⟩
    cases stop with
    | zero => exact absurd closes other
    | succ later =>
        refine ⟨later, rfl, closes, fun place before => ?_⟩
        exact first (place + 1) (Nat.succ_lt_succ before)
  · rintro ⟨later, rfl, closes, first⟩
    refine ⟨closes, fun place before => ?_⟩
    cases place with
    | zero => exact other
    | succ place => exact first place (Nat.lt_of_succ_lt_succ before)

theorem close_iff : EndsComment ('*' :: '/' :: rest) stop ↔ stop = 0 := by
  have closes : "*/".toList <+: '*' :: '/' :: rest := ⟨rest, rfl⟩
  constructor
  · intro ends
    by_contra later
    exact ends.first 0 (Nat.pos_of_ne_zero later) closes
  · rintro rfl
    exact ⟨closes, fun place before => absurd before (Nat.not_lt_zero _)⟩

end EndsComment

/-- A mark at the front of a text is on its first line. -/
theorem prefix_takeWhile_iff {mark : List Char} (inLine : '\n' ∉ mark) (text : List Char) :
    mark <+: text.takeWhile (· ≠ '\n') ↔ mark <+: text := by
  constructor
  · exact fun starts => starts.trans (List.takeWhile_prefix _)
  · rintro ⟨further, rfl⟩
    rw [takeWhile_ne_append _ _ _ inLine]
    exact List.prefix_append _ _

/-- The indentation of a line ends on the line. -/
theorem dropWhile_isIndent_takeWhile (text : List Char) :
    (text.takeWhile (· ≠ '\n')).dropWhile isIndent =
      (text.dropWhile isIndent).takeWhile (· ≠ '\n') := by
  induction text with
  | nil => rfl
  | cons c rest ih =>
      by_cases indents : isIndent c = true
      · have inLine : c ≠ '\n' := by
          rintro rfl
          cases indents
        rw [List.takeWhile_cons_of_pos (by simpa using inLine), List.dropWhile_cons_of_pos indents,
          List.dropWhile_cons_of_pos indents, ih]
      · rw [List.dropWhile_cons_of_neg indents]
        by_cases isNewline : c = '\n'
        · rw [isNewline]
          rfl
        · rw [List.takeWhile_cons_of_pos (by simpa using isNewline),
            List.dropWhile_cons_of_neg indents]

theorem commentRun_eq (marks : List String) {text line : List Char} {later : List (List Char)}
    (lines : text.splitOn '\n' = line :: later) :
    commentRun marks text = ['\n'].intercalate (line :: later.takeWhile (goesOn marks)) := by
  rw [commentRun, lines]
  rfl

end Text

namespace Lexeme

open Text (EndsString EndsComment commentRun)

theorem stringRest_eq_some_iff {quote : Char} (noBackslash : quote ≠ '\\') (text : List Char) :
    ∀ found, stringRest quote text = some found ↔
      ∃ stop, EndsString quote text stop ∧ found = text.take (stop + 1) := by
  -- A text is passed by pairs of a backslash and the character that it escapes, and by others.
  fun_induction stringRest quote text with
  | case1 =>
      refine fun found => iff_of_false (Option.some_ne_none found).symm ?_
      rintro ⟨stop, ⟨⟨⟩, -⟩, -⟩
  | case2 rest =>
      refine fun found => iff_of_false (Option.some_ne_none found).symm ?_
      rintro ⟨stop, ends, -⟩
      exact ((EndsString.pair_iff noBackslash).mp ends).1 rfl
  | case3 c rest inLine ih =>
      intro found
      simp only [Option.map_eq_some_iff, ih, EndsString.pair_iff noBackslash]
      constructor
      · rintro ⟨_, ⟨stop, ends, rfl⟩, rfl⟩
        exact ⟨stop + 2, ⟨inLine, stop, rfl, ends⟩, rfl⟩
      · rintro ⟨_, ⟨-, stop, rfl, ends⟩, rfl⟩
        exact ⟨_, ⟨stop, ends, rfl⟩, rfl⟩
  | case4 rest =>
      intro found
      simp only [EndsString.quote_iff, exists_eq_left, Option.some.injEq]
      exact eq_comm
  | case5 c rest unpaired other ih =>
      intro found
      by_cases isBackslash : c = '\\'
      -- A backslash at the very end escapes nothing.
      · obtain rfl : rest = [] := by
          cases rest with
          | nil => rfl
          | cons d rest => exact absurd rfl (unpaired d rest isBackslash)
        refine iff_of_false (Option.some_ne_none found).symm ?_
        rintro ⟨stop, ends, -⟩
        have closes := ends.closes
        cases stop with
        | zero => exact other (Option.some.inj closes)
        | succ stop => cases closes
      · simp only [Option.map_eq_some_iff, ih, EndsString.cons_iff isBackslash other]
        constructor
        · rintro ⟨_, ⟨stop, ends, rfl⟩, rfl⟩
          exact ⟨stop + 1, ⟨stop, rfl, ends⟩, rfl⟩
        · rintro ⟨_, ⟨stop, rfl, ends⟩, rfl⟩
          exact ⟨_, ⟨stop, ends, rfl⟩, rfl⟩

theorem throughClose_eq_some_iff (text : List Char) : ∀ found, throughClose text = some found ↔
    ∃ stop, EndsComment text stop ∧ found = text.take (stop + 2) := by
  fun_induction throughClose text with
  | case1 rest =>
      intro found
      simp only [EndsComment.close_iff, exists_eq_left, Option.some.injEq]
      exact eq_comm
  | case2 c rest other ih =>
      intro found
      have open' : ¬"*/".toList <+: c :: rest := by
        rintro ⟨further, same⟩
        obtain ⟨isStar, isRest⟩ := List.cons.inj same
        exact other further isStar.symm isRest.symm
      simp only [Option.map_eq_some_iff, ih, EndsComment.cons_iff open']
      constructor
      · rintro ⟨_, ⟨stop, ends, rfl⟩, rfl⟩
        exact ⟨stop + 1, ⟨stop, rfl, ends⟩, rfl⟩
      · rintro ⟨_, ⟨stop, rfl, ends⟩, rfl⟩
        exact ⟨_, ⟨stop, ends, rfl⟩, rfl⟩
  | case3 =>
      refine fun found => iff_of_false (Option.some_ne_none found).symm ?_
      rintro ⟨stop, ends, -⟩
      have closes := ends.closes
      rw [List.drop_nil, List.prefix_nil] at closes
      cases closes

/-- A form that reads up to its end finds nothing in a text without one. -/
theorem eq_none_of_endless {read : Option (List Char)} {Ends : Nat → Prop} {upTo : Nat → List Char}
    (reads : ∀ found, read = some found ↔ ∃ stop, Ends stop ∧ found = upTo stop)
    (endless : ∀ stop, ¬Ends stop) : read = none := by
  refine Option.eq_none_iff_forall_ne_some.mpr fun found isRead => ?_
  obtain ⟨stop, ends, -⟩ := (reads found).mp isRead
  exact endless stop ends

/-- A run of comment lines, by its lines. -/
theorem lineRun_eq_commentRun {opens : List Char → Bool} {marks : List String}
    (isMark : ∀ text, opens text = Text.startsWithAny marks text)
    (inLine : ∀ mark ∈ marks, '\n' ∉ mark.toList) (text : List Char) :
    lineRun opens text = commentRun marks text := by
  have onLine (rest : List Char) : opens (rest.dropWhile Text.isIndent) =
      Text.goesOn marks (rest.takeWhile (· ≠ '\n')) := by
    rw [isMark, Text.goesOn, Text.dropWhile_isIndent_takeWhile, Bool.eq_iff_iff,
      Text.startsWithAny_iff, Text.startsWithAny_iff]
    refine exists_congr fun mark => and_congr_right fun member => ?_
    rw [Text.prefix_takeWhile_iff (inLine mark member)]
  induction text with
  | nil => rfl
  | cons c rest ih =>
      obtain ⟨later, pieces⟩ := Text.splitOn_front '\n' rest
      rw [Text.commentRun_eq marks pieces] at ih
      rw [lineRun]
      by_cases isNewline : c = '\n'
      · have lines : (c :: rest).splitOn '\n' = [] :: rest.splitOn '\n' := by
          simp [List.splitOn_cons_eq_if_modifyHead, isNewline]
        rw [if_pos isNewline, onLine, Text.commentRun_eq marks lines, pieces]
        cases goesOn : Text.goesOn marks (rest.takeWhile (· ≠ '\n')) with
        | true =>
            rw [if_pos rfl, List.takeWhile_cons_of_pos goesOn, List.intercalate_cons_cons, ih]
            rfl
        | false =>
            rw [if_neg Bool.false_ne_true,
              List.takeWhile_cons_of_neg (Bool.eq_false_iff.mp goesOn)]
            rfl
      · have lines : (c :: rest).splitOn '\n' =
            (c :: rest.takeWhile (· ≠ '\n')) :: later := by
          obtain ⟨piece, others, isSplit, longer⟩ := Text.splitOn_cons '\n' c rest isNewline
          obtain ⟨rfl, rfl⟩ := List.cons.inj (pieces.symm.trans isSplit)
          exact longer
        rw [if_neg isNewline, ih, Text.commentRun_eq marks lines]
        cases later.takeWhile (Text.goesOn marks) <;> rfl

theorem opensLine_eq (text : List Char) : opensLine text = Text.startsWithAny ["//"] text := by
  unfold opensLine
  split
  · rfl
  · rename_i other
    refine (Bool.eq_false_iff.mpr fun starts => ?_).symm
    obtain ⟨mark, member, further, rfl⟩ := (Text.startsWithAny_iff _ _).mp starts
    obtain rfl := List.mem_singleton.mp member
    exact other further rfl

theorem opensInline_iff (open₁ open₂ : Char) (styles text : List Char) :
    opensInline open₁ open₂ styles text = true ↔
      ∃ style ∈ styles, [open₁, open₂, style, '<'] <+: text := by
  constructor
  · intro opens
    unfold opensInline at opens
    split at opens
    · rename_i c d style further
      simp only [Bool.and_eq_true, decide_eq_true_eq, List.contains_iff_mem] at opens
      obtain ⟨⟨rfl, rfl⟩, member⟩ := opens
      exact ⟨style, member, further, rfl⟩
    · cases opens
  · rintro ⟨style, member, further, rfl⟩
    simp [opensInline, member]

theorem opensInline_lines (text : List Char) :
    opensInline '/' '/' ['/', '!'] text = Text.startsWithAny ["///<", "//!<"] text := by
  rw [Bool.eq_iff_iff, opensInline_iff, Text.startsWithAny_iff]
  simp

theorem opensInline_block (text : List Char) :
    opensInline '/' '*' ['!', '*'] text = Text.startsWithAny ["/*!<", "/**<"] text := by
  rw [Bool.eq_iff_iff, opensInline_iff, Text.startsWithAny_iff]
  simp

/-- The front of an inline comment holds no end of a comment. -/
theorem inlineBlock_eq (text : List Char)
    (opens : opensInline '/' '*' ['!', '*'] text = true) :
    inlineBlock text = blockComment text := by
  rw [inlineBlock, if_pos opens]
  obtain ⟨style, member, further, rfl⟩ := (opensInline_iff _ _ _ _).mp opens
  simp only [List.mem_cons, List.not_mem_nil, or_false] at member
  rcases member with rfl | rfl <;> simp [blockComment, throughClose, Function.comp_def]

/-- The forms of passages, in the order in which they are tried. -/
def passage? (text : List Char) : Option Lexeme :=
  ((inlineBlock text).map (mk .inlineComment 0)).or <|
  ((inlineLines text).map (mk .inlineComment 0)).or <|
  ((blockComment text).map (mk .comment 0)).or <|
  ((lineComment text).map (mk .comment 0)).or <|
  (stringLiteral text).map (mk .string 0)

theorem rules_passage (previous : Option Char) (text : List Char) :
    rules.findSome? (fun rule => rule previous text) =
      (passage? text).or ((rules.drop 5).findSome? fun rule => rule previous text) := by
  have front : (rules.take 5).findSome? (fun rule => rule previous text) = passage? text := by
    simp only [rules, List.take_succ_cons, List.take_zero, List.findSome?_cons, List.findSome?_nil,
      plain, passage?]
    cases inlineBlock text <;> cases inlineLines text <;> cases blockComment text <;>
      cases lineComment text <;> cases stringLiteral text <;> rfl
  rw [← front, ← List.findSome?_append, List.take_append_drop]

/-- Where a comment or a string could start, one of their forms fits, or else the character is a
token of its own. -/
theorem find?_opener {c : Char} (opens : c ∈ ['/', '"', '\'', '\x60']) (firstOnLine : Bool)
    (previous : Option Char) (rest : List Char) :
    find? firstOnLine previous (c :: rest) =
      some ((passage? (c :: rest)).getD ⟨.char, 0, [c]⟩) := by
  simp only [List.mem_cons, List.not_mem_nil, or_false] at opens
  have noName : isNameChar c = false ∧ Text.isWord c = false := by
    rcases opens with rfl | rfl | rfl | rfl <;> decide
  have noLine : lineRules.findSome? (fun rule => rule previous (c :: rest)) = none := by
    rcases opens with rfl | rfl | rfl | rfl <;>
      simp [lineRules, plain, inlineComponent, nameBefore, noName, List.isPrefixOf?]
  have inLine : (rules.drop 5).findSome? (fun rule => rule previous (c :: rest)) =
      some ⟨.char, 0, [c]⟩ := by
    rcases opens with rfl | rfl | rfl | rfl <;>
      simp [rules, plain, brace, exactly, directive, memberKeyword, wordsBefore, wordBefore,
        functionKeyword, element, noName, singleChar, List.isPrefixOf?]
  refine find?_of_rules noLine ?_ firstOnLine
  rw [rules_passage, inLine]
  cases passage? (c :: rest) <;> rfl

def quotes : List Char :=
  ['"', '\'', '\x60']

theorem passage?_quote {quote : Char} (isQuote : quote ∈ quotes) (behind : List Char) :
    passage? (quote :: behind) =
      (stringRest quote behind).map fun found => ⟨.string, 0, quote :: found⟩ := by
  have noComment (second : Char) (styles : List Char) :
      opensInline '/' second styles (quote :: behind) = false := by
    by_contra opens
    obtain ⟨further, starts⟩ := opensInline_cons _ _ _ _ (Bool.of_not_eq_false opens)
    rw [(List.cons.inj starts).1] at isQuote
    revert isQuote
    decide
  simp only [quotes, List.mem_cons, List.not_mem_nil, or_false] at isQuote
  rcases isQuote with rfl | rfl | rfl <;>
    simp [passage?, inlineBlock, inlineLines, noComment, blockComment, lineComment, opensLine,
      stringLiteral, Function.comp_def]

theorem passage?_block (behind : List Char) :
    passage? ('/' :: '*' :: behind) = (throughClose behind).map fun found =>
      ⟨if Text.startsWithAny ["/*!<", "/**<"] ('/' :: '*' :: behind) then .inlineComment
        else .comment, 0, '/' :: '*' :: found⟩ := by
  have noLines : opensInline '/' '/' ['/', '!'] ('/' :: '*' :: behind) = false := by
    rw [opensInline_lines]
    rfl
  rw [← opensInline_block, passage?]
  cases opens : opensInline '/' '*' ['!', '*'] ('/' :: '*' :: behind) with
  | true =>
      rw [inlineBlock_eq _ opens]
      cases found : throughClose behind <;>
        simp [blockComment, found, inlineLines, noLines, lineComment, opensLine, stringLiteral]
  | false =>
      simp [inlineBlock, opens, inlineLines, noLines, blockComment, lineComment, opensLine,
        stringLiteral, Function.comp_def]

theorem passage?_line (behind : List Char) :
    passage? ('/' :: '/' :: behind) =
      some (if Text.startsWithAny ["///<", "//!<"] ('/' :: '/' :: behind) then
        ⟨.inlineComment, 0, commentRun ["///<", "//!<"] ('/' :: '/' :: behind)⟩
      else ⟨.comment, 0, commentRun ["//"] ('/' :: '/' :: behind)⟩) := by
  have noBlock : opensInline '/' '*' ['!', '*'] ('/' :: '/' :: behind) = false := by
    rw [opensInline_block]
    rfl
  rw [← opensInline_lines, ← lineRun_eq_commentRun opensInline_lines (by decide),
    ← lineRun_eq_commentRun opensLine_eq (by decide), passage?]
  cases opens : opensInline '/' '/' ['/', '!'] ('/' :: '/' :: behind) <;>
    simp [inlineBlock, noBlock, inlineLines, opens, blockComment, lineComment, opensLine]

end Lexeme

namespace Scanner

open Text (EndsString EndsComment commentRun startsWithAny)

/-- The token that is read here is of the given kind, consists of the characters of `piece`, and
the scan goes on right behind them. -/
def Emits (here : Scanner) (kind : Token.Kind) (piece : List Char) : Prop :=
  here.next? = some (here.token kind (String.ofList piece), here.forward piece.length)

theorem emits_of_find? {here : Scanner} {kind : Token.Kind} {piece : List Char}
    (found : Lexeme.find? here.lineStart here.before.head? here.rest = some ⟨kind, 0, piece⟩) :
    here.Emits kind piece := by
  rw [Emits, next?, found, Option.map_some, Lexeme.extent, Nat.zero_add]

variable {here : Scanner} {behind : List Char}

theorem emits_string {quote : Char} (isQuote : quote ∈ Lexeme.quotes)
    (ahead : here.rest = quote :: behind) :
    (∀ stop, EndsString quote behind stop →
        here.Emits .string (quote :: behind.take (stop + 1))) ∧
      ((∀ stop, ¬EndsString quote behind stop) → here.Emits .char [quote]) := by
  have noBackslash : quote ≠ '\\' := by
    rintro rfl
    revert isQuote
    decide
  have found := Lexeme.find?_opener (List.mem_cons_of_mem '/' isQuote) here.lineStart
    here.before.head? behind
  rw [Lexeme.passage?_quote isQuote, ← ahead] at found
  constructor
  · intro stop ends
    rw [(Lexeme.stringRest_eq_some_iff noBackslash behind _).mpr ⟨stop, ends, rfl⟩] at found
    exact emits_of_find? found
  · intro endless
    rw [Lexeme.eq_none_of_endless (Lexeme.stringRest_eq_some_iff noBackslash behind) endless]
      at found
    exact emits_of_find? found

/-- The front of an inline comment is longer than an end of a comment. -/
theorem two_le_of_endsComment {stop : Nat} (ends : EndsComment behind stop)
    (opens : startsWithAny ["/*!<", "/**<"] ('/' :: '*' :: behind) = true) : 2 ≤ stop := by
  rw [← Lexeme.opensInline_block, Lexeme.opensInline_iff] at opens
  obtain ⟨style, -, further, same⟩ := opens
  obtain rfl : style :: '<' :: further = behind := by simpa using same
  obtain ⟨later, rfl, endsLater⟩ := (EndsComment.cons_iff (by simp)).mp ends
  obtain ⟨last, rfl, -⟩ := (EndsComment.cons_iff (by simp)).mp endsLater
  exact Nat.le_add_left 2 last

theorem emits_block (ahead : here.rest = '/' :: '*' :: behind) :
    (∀ stop, EndsComment behind stop →
        here.Emits
          (if startsWithAny ["/*!<", "/**<"] here.rest ∧ 2 ≤ stop then .inlineComment else .comment)
          ('/' :: '*' :: behind.take (stop + 2))) ∧
      ((∀ stop, ¬EndsComment behind stop) → here.Emits .char ['/']) := by
  have found := Lexeme.find?_opener (List.mem_cons_self : '/' ∈ _) here.lineStart here.before.head?
    ('*' :: behind)
  rw [Lexeme.passage?_block, ← ahead] at found
  constructor
  · intro stop ends
    rw [(Lexeme.throughClose_eq_some_iff behind _).mpr ⟨stop, ends, rfl⟩] at found
    have far : startsWithAny ["/*!<", "/**<"] here.rest = true → 2 ≤ stop := by
      rw [ahead]
      exact two_le_of_endsComment ends
    simp only [and_iff_left_of_imp far]
    exact emits_of_find? found
  · intro endless
    rw [Lexeme.eq_none_of_endless (Lexeme.throughClose_eq_some_iff behind) endless] at found
    exact emits_of_find? found

theorem emits_line (ahead : here.rest = '/' :: '/' :: behind) :
    if startsWithAny ["///<", "//!<"] here.rest then
      here.Emits .inlineComment (commentRun ["///<", "//!<"] here.rest)
    else here.Emits .comment (commentRun ["//"] here.rest) := by
  have found := Lexeme.find?_opener (List.mem_cons_self : '/' ∈ _) here.lineStart here.before.head?
    ('/' :: behind)
  rw [Lexeme.passage?_line, ← ahead] at found
  split
  · rename_i opens
    rw [if_pos opens] at found
    exact emits_of_find? found
  · rename_i other
    rw [if_neg other] at found
    exact emits_of_find? found

end Scanner

end QmlDoc
