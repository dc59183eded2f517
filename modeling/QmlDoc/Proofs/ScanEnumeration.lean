import QmlDoc.Proofs.LexemeWords
import QmlDoc.Proofs.ReadDeclaration
import QmlDoc.Proofs.ScanTiles

set_option autoImplicit false

namespace QmlDoc

namespace Scanner

/-- Reading `tokens` from `s` on leads to `t`. -/
inductive Advances : Scanner → List Token → Scanner → Prop
  | done {s : Scanner} : Advances s [] s
  | next {s t : Scanner} {lexeme : Lexeme} {tokens : List Token}
      (found : Lexeme.find? s.skipBlanks.lineStart s.skipBlanks.before.head? s.skipBlanks.rest =
        some lexeme)
      (later : Advances (s.skipBlanks.forward lexeme.extent) tokens t) :
      Advances s (s.skipBlanks.token lexeme.kind (String.ofList lexeme.text) :: tokens) t

namespace Advances

variable {s t u : Scanner} {tokens later : List Token} {text : List Char}

theorem append (first : Advances s tokens t) (second : Advances t later u) :
    Advances s (tokens ++ later) u := by
  induction first with
  | done => exact second
  | next found _ ih => exact .next found (ih second)

theorem reads (first : Advances s tokens t) (second : Reads t later u) :
    Reads s (tokens ++ later) u := by
  induction first with
  | done => exact second
  | next found _ ih => exact .next found (ih second)

theorem standsIn (advances : Advances s tokens t) (stands : s.StandsIn text) :
    t.StandsIn text := by
  induction advances with
  | done => exact stands
  | next found _ ih =>
      exact ih (stands.skipBlanks.forward _ (Lexeme.find?_fits found).extent_le)

end Advances

/-- The first tokens of a text, up to a place with more of them ahead. -/
theorem advances_scanUpTo {text : List Char} (n : Nat) : ∀ {s : Scanner}, s.StandsIn text →
    (scanUpTo n s).stop.skipBlanks.rest ≠ [] →
    Advances s (scanUpTo n s).tokens (scanUpTo n s).stop := by
  induction n with
  | zero => exact fun _ _ => .done
  | succ n ih =>
      intro s stands more
      have here := stands.skipBlanks
      rw [scanUpTo] at more ⊢
      cases ahead : s.skipBlanks.rest with
      | nil =>
          rw [if_pos (by rw [here.atEnd, ahead]; rfl)] at more
          rw [skipBlanks_rest, ahead] at more
          exact absurd rfl more
      | cons c rest =>
          obtain ⟨lexeme, found⟩ := Lexeme.find?_exists s.skipBlanks.lineStart
            s.skipBlanks.before.head? c rest (skipBlanks_inLine ahead)
          rw [← ahead] at found
          have inside := (Lexeme.find?_fits found).extent_le
          rw [if_neg (by rw [here.atEnd, ahead]; simp), next?, found] at more ⊢
          exact .next found (ih (here.forward _ inside) more)

/-- Once its first tokens are read, the tokens of a text are these and those that follow. -/
theorem scan_of_advances {s t : Scanner} {text : List Char} {tokens : List Token}
    (advances : Advances s tokens t) (stands : s.StandsIn text) :
    s.scan.tokens = tokens ++ t.scan.tokens := by
  have reads := advances.reads (scan_reads (advances.standsIn stands)).2
  have bound := reads.length_le
  rw [scan, scanUpTo_of_reads reads stands _ (by omega)]

/-- White space and a token behind it are passed together. -/
theorem advances_piece {s : Scanner} {gap piece rest : List Char} {kind : Token.Kind}
    (ahead : s.rest = gap ++ (piece ++ rest)) (blank : ∀ c ∈ gap, Text.isBlank c = true)
    (solid : ∃ c more, piece = c :: more ∧ Text.isBlank c = false)
    (found : Lexeme.find? (s.idx = 0 || gap.contains '\n') (gap.reverse ++ s.before).head?
      (piece ++ rest) = some ⟨kind, 0, piece⟩) :
    ∃ token t, Advances s [token] t ∧ token.shape = (kind, String.ofList piece) ∧
      t.rest = rest ∧ t.before.head? = piece.getLast? ∧ t.idx ≠ 0 := by
  obtain ⟨c, more, rfl, isSolid⟩ := solid
  have taken : s.rest.takeWhile Text.isBlank = gap := by
    rw [ahead, List.takeWhile_append_of_pos blank, List.cons_append,
      List.takeWhile_cons_of_neg (by simp [isSolid]), List.append_nil]
  have restIs : s.skipBlanks.rest = c :: more ++ rest := by
    rw [skipBlanks_rest, ahead, List.dropWhile_append_of_pos blank, List.cons_append,
      List.dropWhile_cons_of_neg (by simp [isSolid])]
  have beforeIs : s.skipBlanks.before = gap.reverse ++ s.before := by
    rw [skipBlanks_before, taken]
  have lineStartIs : s.skipBlanks.lineStart = (s.idx = 0 || gap.contains '\n') := by
    rw [skipBlanks_lineStart, taken]
  rw [← lineStartIs, ← beforeIs, ← restIs] at found
  refine ⟨_, _, .next found .done, rfl, ?_, ?_, ?_⟩
  · simp [forward, Lexeme.extent, restIs]
  · simp [forward, Lexeme.extent, restIs, List.getLast?_cons]
  · simp only [forward, Lexeme.extent, List.length_cons]
    omega

end Scanner

namespace Source

/-- White space. -/
structure Gap where
  chars : List Char
  isBlank : chars.all Text.isBlank = true

theorem Gap.blank (gap : Gap) : ∀ c ∈ gap.chars, Text.isBlank c = true :=
  List.all_eq_true.mp gap.isBlank

/-- White space on one line. -/
structure Space extends Gap where
  inLine : '\n' ∉ chars

structure Name where
  chars : List Char
  isName : Lexeme.IsName chars

/-- An equals sign and what stands behind it. -/
structure Value where
  before : Gap
  behind : Gap
  word : Name

def Value.chars (value : Value) : List Char :=
  value.before.chars ++ '=' :: (value.behind.chars ++ value.word.chars)

/-- A comment behind a comma, up to the end of the line. -/
structure Note where
  space : Space
  line : List Char
  inLine : '\n' ∉ line

def Note.text (note : Note) : List Char :=
  "///<".toList ++ note.line

def Note.chars (note : Note) : List Char :=
  note.space.chars ++ (note.text ++ ['\n'])

/-- A constant up to its comma, and the inline comment behind that. -/
structure Constant where
  indent : Gap
  name : Name
  value : Option Value
  gap : Gap
  note : Option Note

namespace Constant

def valueChars (constant : Constant) : List Char :=
  (constant.value.map Value.chars).getD []

def noteChars (constant : Constant) : List Char :=
  (constant.note.map Note.chars).getD []

def chars (constant : Constant) : List Char :=
  constant.indent.chars ++ (constant.name.chars ++ (constant.valueChars ++
    (constant.gap.chars ++ ',' :: constant.noteChars)))

def outline (constant : Constant) : Outline.Constant where
  name := String.ofList constant.name.chars
  initializer := constant.value.map fun value => String.ofList value.word.chars
  note := (constant.note.map fun note => .after (String.ofList note.text) true).getD .absent

end Constant

/-- An enumeration with its name on the line of the keyword. -/
structure Enumeration where
  space : Space
  spaced : space.chars ≠ []
  name : Name
  gap : Gap
  constants : List Constant
  closing : Gap

namespace Enumeration

def bodyChars (enumeration : Enumeration) : List Char :=
  enumeration.constants.flatMap Constant.chars ++ (enumeration.closing.chars ++ ['\x7d'])

def chars (enumeration : Enumeration) : List Char :=
  "enum".toList ++ (enumeration.space.chars ++ (enumeration.name.chars ++
    (enumeration.gap.chars ++ '\x7b' :: enumeration.bodyChars)))

def outlines (enumeration : Enumeration) : List Outline.Constant :=
  enumeration.constants.map Constant.outline

def outline (enumeration : Enumeration) : Outline.Member :=
  .enumeration (String.ofList enumeration.name.chars) enumeration.outlines true

end Enumeration

end Source

namespace Scanner

open Source

theorem isBlank_of_isWord {c : Char} (isWord : Text.isWord c = true) : Text.isBlank c = false := by
  by_contra blank
  rw [Text.isWord_of_isBlank (Bool.of_not_eq_false blank)] at isWord
  cases isWord

theorem name_solid (name : Name) : ∃ c more, name.chars = c :: more ∧ Text.isBlank c = false := by
  obtain ⟨c, more, isCons, isWord⟩ := name.isName.first
  exact ⟨c, more, isCons, isBlank_of_isWord isWord⟩

/-- A word before a comma or an equals sign. -/
theorem advances_name {s : Scanner} {gap rest : List Char} (name : Name)
    (ahead : s.rest = gap ++ (name.chars ++ rest)) (blank : ∀ c ∈ gap, Text.isBlank c = true)
    (closes : Lexeme.Closes rest) :
    ∃ token t, Advances s [token] t ∧ token.shape = (.element, String.ofList name.chars) ∧
      t.rest = rest := by
  obtain ⟨token, t, advances, shape, restIs, -⟩ := advances_piece ahead blank (name_solid name)
    (Lexeme.find?_name name.isName closes _ _)
  exact ⟨token, t, advances, shape, restIs⟩

theorem advances_mark {s : Scanner} {gap rest : List Char} {mark : Char}
    (ahead : s.rest = gap ++ mark :: rest) (blank : ∀ c ∈ gap, Text.isBlank c = true)
    (isMark : mark = ',' ∨ mark = '=') :
    ∃ token t, Advances s [token] t ∧ token.shape = (.char, String.ofList [mark]) ∧
      t.rest = rest ∧ t.before.head? = some mark := by
  have solid : Text.isBlank mark = false := by rcases isMark with rfl | rfl <;> decide
  have split : s.rest = gap ++ ([mark] ++ rest) := ahead
  obtain ⟨token, t, advances, shape, restIs, last, -⟩ := advances_piece split
    blank ⟨mark, [], rfl, solid⟩ (Lexeme.find?_mark isMark _ _ rest)
  exact ⟨token, t, advances, shape, restIs, last⟩

/-- An initializer, if there is one, before the comma. -/
theorem advances_value {s : Scanner} {rest : List Char} (value : Option Value)
    (ahead : s.rest = (value.map Value.chars).getD [] ++ rest) (closes : Lexeme.Closes rest) :
    ∃ tokens t, Advances s tokens t ∧ Spells tokens (Outline.Constant.initializerShapes
      (value.map fun value => String.ofList value.word.chars)) ∧ t.rest = rest := by
  cases value with
  | none => exact ⟨[], s, .done, rfl, ahead⟩
  | some value =>
      have split : s.rest = value.before.chars ++ '=' :: (value.behind.chars ++
          (value.word.chars ++ rest)) := by
        rw [ahead, Option.map_some, Option.getD_some, Value.chars]
        simp only [List.append_assoc, List.cons_append]
      obtain ⟨equals, t, toEquals, isEquals, restIs, -⟩ :=
        advances_mark split value.before.blank (Or.inr rfl)
      obtain ⟨word, u, toWord, isWord, restIs⟩ :=
        advances_name value.word restIs value.behind.blank closes
      refine ⟨[equals] ++ [word], u, toEquals.append toWord, ?_, restIs⟩
      simp only [Spells, List.singleton_append, List.map_cons, List.map_nil, isEquals, isWord]
      rfl

theorem closes_comma (constant : Constant) (more : List Char) :
    Lexeme.Closes (constant.gap.chars ++ ',' :: more) :=
  ⟨constant.gap.chars, ',', more, rfl, constant.gap.blank, Or.inl rfl⟩

theorem closes_value (constant : Constant) (more : List Char) :
    Lexeme.Closes (constant.valueChars ++ (constant.gap.chars ++ ',' :: more)) := by
  cases isValue : constant.value with
  | none =>
      rw [Constant.valueChars, isValue]
      exact closes_comma constant more
  | some value =>
      refine ⟨value.before.chars, '=', value.behind.chars ++ value.word.chars ++
        (constant.gap.chars ++ ',' :: more), ?_, value.before.blank, Or.inr rfl⟩
      rw [Constant.valueChars, isValue, Option.map_some, Option.getD_some, Value.chars]
      simp only [List.append_assoc, List.cons_append]

/-- What follows a line is no further line of an inline comment. -/
def EndsNote (rest : List Char) : Prop :=
  (rest.dropWhile Text.isIndent).head? ≠ some '/'

theorem endsNote_of_solid {gap more : List Char} {c : Char}
    (blank : ∀ d ∈ gap, Text.isBlank d = true) (solid : Text.isBlank c = false)
    (other : c ≠ '/') : EndsNote (gap ++ c :: more) := by
  induction gap with
  | nil =>
      have noIndent : ¬Text.isIndent c = true := by
        intro indents
        rw [Text.isBlank_of_isIndent indents] at solid
        cases solid
      rw [EndsNote, List.nil_append, List.dropWhile_cons_of_neg noIndent]
      exact fun first => other (Option.some.inj first)
  | cons d gap ih =>
      rw [List.forall_mem_cons] at blank
      rw [EndsNote, List.cons_append, List.dropWhile_cons]
      split
      · exact ih blank.2
      · intro first
        obtain rfl := Option.some.inj first
        cases blank.1

/-- An inline comment, if there is one. -/
theorem advances_note {s : Scanner} {rest : List Char} (note : Option Note)
    (ahead : s.rest = (note.map Note.chars).getD [] ++ rest) (ends : EndsNote rest)
    (apart : s.before.head? ≠ some '\'') :
    ∃ tokens t lead, Advances s tokens t ∧
      Spells tokens (Outline.Constant.inlineShapes (note.map fun note => String.ofList note.text)) ∧
      t.rest = lead ++ rest ∧ (∀ c ∈ lead, Text.isBlank c = true) ∧
      (lead = [] → t.before.head? ≠ some '\'') := by
  cases note with
  | none => exact ⟨[], s, [], .done, rfl, ahead, by simp, fun _ => apart⟩
  | some note =>
      have split : s.rest = note.space.chars ++ (note.text ++ '\n' :: rest) := by
        rw [ahead, Option.map_some, Option.getD_some, Note.chars]
        simp only [List.append_assoc, List.cons_append, List.nil_append]
      have solid : ∃ c more, note.text = c :: more ∧ Text.isBlank c = false :=
        ⟨'/', _, rfl, by decide⟩
      obtain ⟨token, t, advances, shape, restIs, -⟩ := advances_piece split note.space.blank solid
        (Lexeme.find?_note note.inLine ends _ _)
      have newline : Text.isBlank '\n' = true := by decide
      refine ⟨[token], t, ['\n'], advances, ?_, restIs, by simpa using newline,
        fun empty => nomatch empty⟩
      simp only [Spells, List.map_cons, List.map_nil, shape]
      rfl

theorem shapes_outline (constant : Constant) :
    constant.outline.shapesWithComma =
      (.element, String.ofList constant.name.chars) ::
        (Outline.Constant.initializerShapes
            (constant.value.map fun value => String.ofList value.word.chars) ++
          (.char, ",") :: Outline.Constant.inlineShapes
            (constant.note.map fun note => String.ofList note.text)) := by
  rw [Outline.Constant.shapesWithComma, Outline.Constant.stemShapes, Constant.outline]
  cases constant.note <;> rfl

/-- A constant with its comma and its comment. -/
theorem advances_constant {s : Scanner} {lead rest : List Char} (constant : Constant)
    (ahead : s.rest = lead ++ (constant.chars ++ rest))
    (blank : ∀ c ∈ lead, Text.isBlank c = true) (ends : EndsNote rest) :
    ∃ tokens t behind, Advances s tokens t ∧ Spells tokens constant.outline.shapesWithComma ∧
      t.rest = behind ++ rest ∧ (∀ c ∈ behind, Text.isBlank c = true) ∧
      (behind = [] → t.before.head? ≠ some '\'') := by
  have split : s.rest = (lead ++ constant.indent.chars) ++ (constant.name.chars ++
      (constant.valueChars ++ (constant.gap.chars ++ ',' :: (constant.noteChars ++ rest)))) := by
    rw [ahead, Constant.chars]
    simp only [List.append_assoc, List.cons_append]
  have blankLead : ∀ c ∈ lead ++ constant.indent.chars, Text.isBlank c = true :=
    List.forall_mem_append.mpr ⟨blank, constant.indent.blank⟩
  obtain ⟨word, s₁, toWord, isWord, rest₁⟩ :=
    advances_name constant.name split blankLead (closes_value constant _)
  obtain ⟨initializer, s₂, toValue, isValue, rest₂⟩ :=
    advances_value constant.value rest₁ (closes_comma constant _)
  obtain ⟨comma, s₃, toComma, isComma, rest₃, last⟩ :=
    advances_mark rest₂ constant.gap.blank (Or.inl rfl)
  obtain ⟨note, t, behind, toNote, isNote, restIs, blankBehind, apart⟩ :=
    advances_note constant.note rest₃ ends (by rw [last]; decide)
  refine ⟨[word] ++ (initializer ++ ([comma] ++ note)), t, behind, ?_, ?_, restIs, blankBehind,
    apart⟩
  · exact toWord.append (toValue.append (toComma.append toNote))
  · rw [shapes_outline]
    simp only [Spells, List.singleton_append, List.map_cons, List.map_append, isWord, isComma]
    rw [Spells] at isValue isNote
    rw [isValue, isNote]

/-- The body of an enumeration, and what is left of it behind a constant, starts with a name or
ends, after white space if there is any. -/
theorem body_starts (constants : List Constant) (closing : Gap) (back : List Char) :
    ∃ gap c more, constants.flatMap Constant.chars ++ (closing.chars ++ '\x7d' :: back) =
      gap ++ c :: more ∧ (∀ d ∈ gap, Text.isBlank d = true) ∧
      (Text.isWord c = true ∨ c = '\x7d') := by
  cases constants with
  | nil => exact ⟨closing.chars, '\x7d', back, rfl, closing.blank, Or.inr rfl⟩
  | cons constant later =>
      obtain ⟨c, more, isName, isWord⟩ := constant.name.isName.first
      refine ⟨constant.indent.chars, c, more ++ (constant.valueChars ++ (constant.gap.chars ++
        ',' :: (constant.noteChars ++ (later.flatMap Constant.chars ++
          (closing.chars ++ '\x7d' :: back))))), ?_, constant.indent.blank, Or.inl isWord⟩
      simp only [List.flatMap_cons, Constant.chars, isName, List.append_assoc, List.cons_append]

theorem endsNote_body (constants : List Constant) (closing : Gap) (back : List Char) :
    EndsNote (constants.flatMap Constant.chars ++ (closing.chars ++ '\x7d' :: back)) := by
  obtain ⟨gap, c, more, split, blank, isWord | rfl⟩ := body_starts constants closing back
  · have other : c ≠ '/' := by
      rintro rfl
      cases isWord
    rw [split]
    exact endsNote_of_solid blank (isBlank_of_isWord isWord) other
  · rw [split]
    exact endsNote_of_solid blank (by decide) (by decide)

theorem head?_body (constants : List Constant) (closing : Gap) (back : List Char) :
    (constants.flatMap Constant.chars ++ (closing.chars ++ '\x7d' :: back)).head? ≠
      some '\'' := by
  obtain ⟨gap, c, more, split, blank, starts⟩ := body_starts constants closing back
  rw [split]
  intro first
  cases gap with
  | nil =>
      obtain rfl := Option.some.inj first
      rcases starts with isWord | other
      · cases isWord
      · cases other
  | cons d gap =>
      obtain rfl := Option.some.inj first
      cases blank '\'' (by simp)

/-- The constants one after the other. -/
theorem advances_constants (constants : List Constant) (closing : Gap) (back : List Char) :
    ∀ {s : Scanner} {lead : List Char},
      s.rest = lead ++ (constants.flatMap Constant.chars ++ (closing.chars ++ '\x7d' :: back)) →
      (∀ c ∈ lead, Text.isBlank c = true) → (lead = [] → s.before.head? ≠ some '\'') →
      ∃ tokens t behind, Advances s tokens t ∧
        Spells tokens (Outline.Constant.listShapes true (constants.map Constant.outline)) ∧
        t.rest = behind ++ (closing.chars ++ '\x7d' :: back) ∧
        (∀ c ∈ behind, Text.isBlank c = true) ∧ (behind = [] → t.before.head? ≠ some '\'') := by
  induction constants with
  | nil => exact fun ahead blank apart => ⟨[], _, _, .done, rfl, ahead, blank, apart⟩
  | cons constant later ih =>
      intro s lead ahead blank apart
      rw [List.flatMap_cons, List.append_assoc] at ahead
      obtain ⟨first, t, between, toFirst, isFirst, restIs, blankBetween, apartBetween⟩ :=
        advances_constant constant ahead blank (endsNote_body later closing back)
      obtain ⟨further, u, behind, toFurther, isFurther, restIs, blankBehind, apartBehind⟩ :=
        ih restIs blankBetween apartBetween
      refine ⟨first ++ further, u, behind, toFirst.append toFurther, ?_, restIs, blankBehind,
        apartBehind⟩
      rw [List.map_cons, Enumeration.listShapes_cons true _ _ (Or.inl rfl)]
      exact spells_append.mpr ⟨first, further, rfl, isFirst, isFurther⟩

/-- A brace that no apostrophe touches. -/
theorem advances_brace {s : Scanner} {gap rest : List Char} {c : Char}
    (ahead : s.rest = gap ++ c :: rest) (blank : ∀ d ∈ gap, Text.isBlank d = true)
    (braced : isBrace c = true) (before : gap = [] → s.before.head? ≠ some '\'')
    (behind : rest.head? ≠ some '\'') :
    ∃ token t, Advances s [token] t ∧ token.shape = (braceKind c false, String.ofList [c]) ∧
      t.rest = rest ∧ t.before.head? = some c := by
  have solid : Text.isBlank c = false := by
    rcases (isBrace_iff c).mp braced with rfl | rfl <;> decide
  have previous : (gap.reverse ++ s.before).head? ≠ some '\'' := by
    cases last : gap.reverse with
    | nil => exact before (List.reverse_eq_nil_iff.mp last)
    | cons d more =>
        intro isFirst
        obtain rfl := Option.some.inj isFirst
        have isBlank := blank '\'' (by rw [← List.mem_reverse, last]; simp)
        cases isBlank
  have found := Lexeme.find?_of_brace (s.idx = 0 || gap.contains '\n')
    (gap.reverse ++ s.before).head? c rest braced
  simp only [previous, behind, decide_false, Bool.or_self] at found
  have split : s.rest = gap ++ ([c] ++ rest) := ahead
  obtain ⟨token, t, advances, shape, restIs, last, -⟩ := advances_piece split
    blank ⟨c, [], rfl, solid⟩ found
  exact ⟨token, t, advances, shape, restIs, last⟩

/-- The keyword, before a name. -/
theorem advances_enum {s : Scanner} {lead rest : List Char} (space : Space) (name : Name)
    (spaced : space.chars ≠ [])
    (ahead : s.rest = lead ++ ("enum".toList ++ (space.chars ++ (name.chars ++ rest))))
    (blank : ∀ c ∈ lead, Text.isBlank c = true) :
    ∃ token t, Advances s [token] t ∧ token.shape = (.keyword, "enum") ∧
      t.rest = space.chars ++ (name.chars ++ rest) ∧ t.idx ≠ 0 := by
  obtain ⟨c, more, isName, isWord⟩ := name.isName.first
  have found : Lexeme.find? (s.idx = 0 || lead.contains '\n') (lead.reverse ++ s.before).head?
      ("enum".toList ++ (space.chars ++ c :: (more ++ rest))) =
        some ⟨.keyword, 0, "enum".toList⟩ :=
    Lexeme.find?_keyword (Or.inl rfl) spaced space.blank isWord _ _
  rw [← List.cons_append, ← isName] at found
  obtain ⟨token, t, advances, shape, restIs, -, started⟩ := advances_piece ahead blank
    ⟨'e', "num".toList, rfl, by decide⟩ found
  exact ⟨token, t, advances, shape, restIs, started⟩

/-- The name of an enumeration, on the line of the keyword and before the brace. -/
theorem advances_enumName {s : Scanner} {rest : List Char} (space : Space) (name : Name) (gap : Gap)
    (ahead : s.rest = space.chars ++ (name.chars ++ (gap.chars ++ '\x7b' :: rest)))
    (started : s.idx ≠ 0) :
    ∃ token t, Advances s [token] t ∧ token.shape = (.element, String.ofList name.chars) ∧
      t.rest = gap.chars ++ '\x7b' :: rest ∧ t.before.head? ≠ some '\'' := by
  have ends : Lexeme.EndsName (gap.chars ++ '\x7b' :: rest) := by
    intro c first
    cases isGap : gap.chars with
    | nil =>
        rw [isGap] at first
        obtain rfl := Option.some.inj first
        decide
    | cons d more =>
        rw [isGap] at first
        obtain rfl := Option.some.inj first
        exact Lexeme.not_isElementChar_of_isBlank (gap.blank d (by rw [isGap]; simp))
  have found : Lexeme.find? (s.idx = 0 || space.chars.contains '\n')
      (space.chars.reverse ++ s.before).head? (name.chars ++ (gap.chars ++ '\x7b' :: rest)) =
        some ⟨.element, 0, name.chars⟩ := by
    have inLine : (s.idx = 0 || space.chars.contains '\n' : Bool) = false := by
      simpa [started] using space.inLine
    rw [inLine]
    exact Lexeme.rules_name name.isName ends _
  obtain ⟨token, t, advances, shape, restIs, last, -⟩ :=
    advances_piece ahead space.blank (name_solid name) found
  refine ⟨token, t, advances, shape, restIs, ?_⟩
  rw [last]
  intro isLast
  have inside := name.isName.inside '\'' (List.mem_of_getLast? isLast)
  cases inside

/-- A whole enumeration, wherever it stands. -/
theorem advances_enumeration {s : Scanner} {lead back : List Char}
    (enumeration : Source.Enumeration) (ahead : s.rest = lead ++ (enumeration.chars ++ back))
    (blank : ∀ c ∈ lead, Text.isBlank c = true) (apart : back.head? ≠ some '\'') :
    ∃ tokens t, Advances s tokens t ∧ Spells tokens enumeration.outline.shapes := by
  obtain ⟨space, spaced, name, gap, constants, closing⟩ := enumeration
  have split : s.rest = lead ++ ("enum".toList ++ (space.chars ++ (name.chars ++ (gap.chars ++
      '\x7b' :: (constants.flatMap Constant.chars ++ (closing.chars ++ '\x7d' :: back)))))) := by
    rw [ahead, Enumeration.chars, Enumeration.bodyChars]
    simp only [List.append_assoc, List.cons_append, List.nil_append]
  obtain ⟨keyword, s₁, toKeyword, isKeyword, rest₁, started⟩ :=
    advances_enum space name spaced split blank
  obtain ⟨word, s₂, toWord, isWord, rest₂, apart₂⟩ := advances_enumName space name gap rest₁ started
  obtain ⟨start, s₃, toStart, isStart, rest₃, last⟩ := advances_brace rest₂ gap.blank (by decide)
    (fun _ => apart₂) (head?_body constants closing back)
  rw [← List.nil_append (constants.flatMap Constant.chars ++ _)] at rest₃
  obtain ⟨inside, s₄, behind, toInside, isInside, rest₄, blankBehind, apart₄⟩ :=
    advances_constants constants closing back rest₃ (by simp) (fun _ => by rw [last]; decide)
  rw [← List.append_assoc] at rest₄
  obtain ⟨stop, t, toStop, isStop, -⟩ := advances_brace rest₄
    (List.forall_mem_append.mpr ⟨blankBehind, closing.blank⟩) (by decide)
    (fun empty => apart₄ (List.append_eq_nil_iff.mp empty).1) apart
  refine ⟨[keyword] ++ ([word] ++ ([start] ++ (inside ++ [stop]))), t, ?_, ?_⟩
  · exact toKeyword.append (toWord.append (toStart.append (toInside.append toStop)))
  · rw [Spells] at isInside ⊢
    simp only [List.singleton_append, List.map_cons, List.map_append, List.map_nil, isKeyword,
      isWord, isStart, isInside, isStop]
    rfl

/-- The tokens of a text in which the scan meets an enumeration behind the first `n` tokens. -/
theorem scan_enumeration {text : String} {n : Nat} {lead back : List Char}
    (enumeration : Source.Enumeration)
    (ahead : (scanUpTo n (ofText text)).stop.rest = lead ++ (enumeration.chars ++ back))
    (blank : ∀ c ∈ lead, Text.isBlank c = true) (apart : back.head? ≠ some '\'') :
    ∃ tokens after, Spells tokens enumeration.outline.shapes ∧
      (ofText text).scan.tokens = (scanUpTo n (ofText text)).tokens ++ (tokens ++ after) := by
  have stands := standsIn_ofText text
  have more : (scanUpTo n (ofText text)).stop.skipBlanks.rest ≠ [] := by
    rw [skipBlanks_rest, ahead, List.dropWhile_append_of_pos blank]
    simp [Enumeration.chars, show Text.isBlank 'e' = false by decide]
  have toHere := advances_scanUpTo n stands more
  obtain ⟨tokens, t, advances, spelled⟩ := advances_enumeration enumeration ahead blank apart
  refine ⟨tokens, t.scan.tokens, spelled, ?_⟩
  rw [scan_of_advances (toHere.append advances) stands, List.append_assoc]

end Scanner

end QmlDoc
