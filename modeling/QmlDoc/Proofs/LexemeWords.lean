import QmlDoc.Proofs.LexemeBraces

set_option autoImplicit false

namespace QmlDoc

namespace Text

theorem mem_codes_of_inRanges (ranges : List (Nat × Nat)) (code : Nat)
    (inside : inRanges ranges code = true) :
    code ∈ ranges.flatMap fun range => List.range' range.1 (range.2 + 1 - range.1) := by
  induction ranges with
  | nil => cases inside
  | cons range later ih =>
      rw [inRanges] at inside
      rw [List.flatMap_cons, List.mem_append, List.mem_range'_1]
      split at inside
      · simp only [decide_eq_true_eq] at inside
        exact Or.inl (by omega)
      · exact Or.inr (ih inside)

/-- The blanks are few enough to look at each of them. -/
theorem forall_blank {P : Char → Prop}
    (all : ∀ code ∈ blankRanges.flatMap fun range => List.range' range.1 (range.2 + 1 - range.1),
      P (Char.ofNat code)) {c : Char} (blank : isBlank c = true) : P c := by
  have holds := all _ (mem_codes_of_inRanges blankRanges c.toNat blank)
  rwa [Char.ofNat_toNat] at holds

theorem isWord_of_isBlank {c : Char} (blank : isBlank c = true) : isWord c = false :=
  forall_blank (P := fun c => isWord c = false) (by decide +kernel) blank

theorem isBlank_of_isIndent {c : Char} (indents : isIndent c = true) : isBlank c = true := by
  simp only [isIndent, Bool.or_eq_true, beq_iff_eq] at indents
  rcases indents with rfl | rfl <;> decide

end Text

namespace Lexeme

/-- The text starts with the word `key`, and white space follows. -/
def Leads (key text : List Char) : Prop :=
  ∃ blank more, text = key ++ blank :: more ∧ Text.isBlank blank = true

theorem leads_of_gap {key after : List Char} (gap : (Text.spanBlank after).1.isEmpty = false) :
    Leads key (key ++ after) := by
  cases after with
  | nil => cases gap
  | cons blank more =>
      refine ⟨blank, more, rfl, ?_⟩
      by_contra solid
      rw [Text.spanBlank, List.takeWhile_cons_of_neg solid] at gap
      cases gap

theorem directive_eq_none {key text : List Char} (starts : List Char → Bool)
    (absent : ¬Leads key text) : directive key starts text = none := by
  unfold directive
  split
  · rfl
  · rename_i after parted
    obtain rfl := List.isPrefixOf?_eq_some_iff_append_eq.mp parted
    cases gap : (Text.spanBlank after).1.isEmpty with
    | true => simp [gap]
    | false => exact absurd (leads_of_gap gap) absent

theorem wordBefore_eq_none {key text : List Char} (absent : ¬Leads key text) :
    wordBefore key text = none := by
  unfold wordBefore
  split
  · rename_i blank more parted
    obtain rfl := List.isPrefixOf?_eq_some_iff_append_eq.mp parted
    exact if_neg fun isBlank => absent ⟨blank, more, rfl, isBlank⟩
  · rfl

theorem wordsBefore_eq_none {key text : List Char} (second : List Char)
    (absent : ¬Leads key text) : wordsBefore key second text = none := by
  unfold wordsBefore
  split
  · rfl
  · rename_i after parted
    obtain rfl := List.isPrefixOf?_eq_some_iff_append_eq.mp parted
    cases gap : (Text.spanBlank after).1.isEmpty with
    | true => simp [gap]
    | false => exact absurd (leads_of_gap gap) absent

theorem functionKeyword_eq_none {text : List Char} (absent : ¬Leads "function".toList text) :
    functionKeyword text = none := by
  unfold functionKeyword
  split
  · rfl
  · rename_i after parted
    obtain rfl := List.isPrefixOf?_eq_some_iff_append_eq.mp parted
    cases gap : (Text.spanBlank after).1.isEmpty with
    | true => simp [List.isEmpty_iff.mp gap]
    | false => exact absurd (leads_of_gap gap) absent

def isElementChar (c : Char) : Bool :=
  Text.isWord c || c = '.' || c = '<' || c = '>'

/-- The words that can start another token than an element. -/
def specialWords : List (List Char) :=
  ["import", "pragma", "default", "readonly", "property", "signal", "enum", "function"].map
    String.toList

/-- A name that is read as one element. -/
structure IsName (word : List Char) : Prop where
  first : ∃ c rest, word = c :: rest ∧ Text.isWord c = true
  inside : ∀ c ∈ word, isElementChar c = true
  plain : word ∉ specialWords

instance (word : List Char) : Decidable (IsName word) :=
  decidable_of_iff (word.head?.any Text.isWord ∧ word.all isElementChar ∧
    word ∉ specialWords) (by
      constructor
      · rintro ⟨first, inside, plain⟩
        cases word with
        | nil => cases first
        | cons c rest => exact ⟨⟨c, rest, rfl, first⟩, List.all_eq_true.mp inside, plain⟩
      · rintro ⟨⟨c, rest, rfl, isWord⟩, inside, plain⟩
        exact ⟨isWord, List.all_eq_true.mpr inside, plain⟩)

theorem isElementChar_of_special {word : List Char} (special : word ∈ specialWords) :
    ∀ c ∈ word, isElementChar c = true := by
  have all : specialWords.all (fun word => word.all isElementChar) = true := by decide
  exact List.all_eq_true.mp (List.all_eq_true.mp all word special)

/-- The name ends here: what follows does not go on with it. -/
def EndsName (after : List Char) : Prop :=
  ∀ c, after.head? = some c → isElementChar c = false

theorem not_isElementChar_of_isBlank {c : Char} (isBlank : Text.isBlank c = true) :
    isElementChar c = false := by
  have noMark : c ≠ '.' ∧ c ≠ '<' ∧ c ≠ '>' := by
    refine ⟨?_, ?_, ?_⟩ <;>
      · rintro rfl
        cases isBlank
  simp [isElementChar, Text.isWord_of_isBlank isBlank, noMark]

/-- A name before white space is the word that leads the text. -/
theorem eq_of_leads {key word after : List Char} (isKey : ∀ c ∈ key, isElementChar c = true)
    (inside : ∀ c ∈ word, isElementChar c = true) (ends : EndsName after)
    (leads : Leads key (word ++ after)) : word = key := by
  obtain ⟨blank, more, parts, isBlank⟩ := leads
  rcases List.append_eq_append_iff.mp parts with ⟨gap, isParts, rest⟩ | ⟨gap, isParts, rest⟩
  · cases gap with
    | nil => rw [isParts, List.append_nil]
    | cons c gap =>
        have goesOn := ends c (by rw [rest]; rfl)
        rw [isKey c (by simp [isParts])] at goesOn
        cases goesOn
  · cases gap with
    | nil => rw [isParts, List.append_nil]
    | cons c gap =>
        obtain ⟨rfl, -⟩ := List.cons.inj rest
        have solid := inside blank (by simp [isParts])
        rw [not_isElementChar_of_isBlank isBlank] at solid
        cases solid

/-- Where no form for the start of a line fits, the place on the line does not matter. -/
theorem find?_of_rules {previous : Option Char} {text : List Char} {lexeme : Lexeme}
    (noLine : lineRules.findSome? (fun rule => rule previous text) = none)
    (inLine : rules.findSome? (fun rule => rule previous text) = some lexeme)
    (firstOnLine : Bool) : find? firstOnLine previous text = some lexeme := by
  cases firstOnLine with
  | false => exact inLine
  | true =>
      rw [find?, if_pos rfl, List.findSome?_append, noLine, inLine]
      rfl

/-- The characters that start comments, strings, blocks and arrays. -/
def openers : List Char :=
  ['/', '"', '\'', '\x60', '\x7b', '\x7d', '[', ']']

/-- Behind any other character only the forms of plain code can fit. -/
theorem rules_code {c : Char} (away : c ∉ openers) (rest : List Char) (previous : Option Char) :
    rules.findSome? (fun rule => rule previous (c :: rest)) =
      (rules.drop 9).findSome? fun rule => rule previous (c :: rest) := by
  simp only [openers, List.mem_cons, List.not_mem_nil, or_false, not_or] at away
  obtain ⟨noSlash, noDouble, noSingle, noGrave, noOpen, noClose, noStart, noEnd⟩ := away
  have noInline (second : Char) (styles : List Char) :
      opensInline '/' second styles (c :: rest) = false := by
    by_contra opens
    obtain ⟨further, starts⟩ := opensInline_cons _ _ _ _ (Bool.of_not_eq_false opens)
    exact noSlash (List.cons.inj starts).1
  have front : (rules.take 9).findSome? (fun rule => rule previous (c :: rest)) = none := by
    simp [rules, plain, inlineBlock, inlineLines, noInline, blockComment, lineComment, opensLine,
      stringLiteral, brace, exactly, noSlash, noDouble, noSingle, noGrave, noOpen, noClose,
      Ne.symm noStart, Ne.symm noEnd]
  rw [← List.take_append_drop 9 rules, List.findSome?_append, front]
  rfl

/-- A comma or an equals sign is a token of its own. -/
theorem find?_mark {mark : Char} (isMark : mark = ',' ∨ mark = '=') (firstOnLine : Bool)
    (previous : Option Char) (rest : List Char) :
    find? firstOnLine previous (mark :: rest) = some ⟨.char, 0, [mark]⟩ := by
  have away : mark ∉ openers := by rcases isMark with rfl | rfl <;> decide
  have noName : isNameChar mark = false := by rcases isMark with rfl | rfl <;> decide
  have noWord : Text.isWord mark = false := by rcases isMark with rfl | rfl <;> decide
  have inLine : rules.findSome? (fun rule => rule previous (mark :: rest)) =
      some ⟨.char, 0, [mark]⟩ := by
    rw [rules_code away]
    rcases isMark with rfl | rfl <;>
      simp [rules, plain, exactly, directive, memberKeyword, wordsBefore, wordBefore,
        functionKeyword, element, noWord, singleChar, List.isPrefixOf?]
  have noLine : lineRules.findSome? (fun rule => rule previous (mark :: rest)) = none := by
    rcases isMark with rfl | rfl <;>
      simp [lineRules, plain, inlineComponent, nameBefore, noName, List.isPrefixOf?]
  exact find?_of_rules noLine inLine firstOnLine

theorem isWord_not_mem_openers {c : Char} (isWord : Text.isWord c = true) : c ∉ openers := by
  have noWord : openers.all (fun mark => !Text.isWord mark) = true := by decide
  intro member
  have isNone := List.all_eq_true.mp noWord c member
  rw [isWord] at isNone
  cases isNone

theorem element_name {word after : List Char} (isName : IsName word) (ends : EndsName after) :
    element (word ++ after) = some word := by
  obtain ⟨c, rest, rfl, isWord⟩ := isName.first
  have inside : ∀ d ∈ rest, isElementChar d = true :=
    fun d member => isName.inside d (List.mem_cons_of_mem c member)
  have stops : after.takeWhile isElementChar = [] := by
    cases after with
    | nil => rfl
    | cons d after => exact List.takeWhile_cons_of_neg (by rw [ends d rfl]; decide)
  have taken : (rest ++ after).takeWhile isElementChar = rest := by
    rw [List.takeWhile_append_of_pos inside, stops, List.append_nil]
  rw [List.cons_append, element, if_pos isWord]
  exact congrArg (fun found => some (c :: found)) taken

/-- In the middle of a line a name is found as an element, whatever follows. -/
theorem rules_name {word after : List Char} (isName : IsName word) (ends : EndsName after)
    (previous : Option Char) :
    rules.findSome? (fun rule => rule previous (word ++ after)) =
      some ⟨.element, 0, word⟩ := by
  have absent (key : List Char) (special : key ∈ specialWords) : ¬Leads key (word ++ after) := by
    intro leads
    rw [eq_of_leads (isElementChar_of_special special) isName.inside ends leads] at isName
    exact isName.plain special
  have noImport := directive_eq_none (fun _ => true) (absent "import".toList (by decide))
  have noPragma := directive_eq_none (fun rest => rest.head?.any Text.isWord)
    (absent "pragma".toList (by decide))
  have noMember : memberKeyword (word ++ after) = none := by
    rw [memberKeyword, wordsBefore_eq_none _ (absent "default".toList (by decide)),
      wordBefore_eq_none (absent "property".toList (by decide)),
      wordsBefore_eq_none _ (absent "readonly".toList (by decide)),
      wordBefore_eq_none (absent "signal".toList (by decide)),
      wordBefore_eq_none (absent "enum".toList (by decide))]
    rfl
  have noFunction := functionKeyword_eq_none (absent "function".toList (by decide))
  have isElement := element_name isName ends
  obtain ⟨c, rest, rfl, isWord⟩ := isName.first
  have noDot : '.' ≠ c := by
    rintro rfl
    cases isWord
  have noEllipses : exactly "...".toList (c :: rest ++ after) = none := by simp [exactly, noDot]
  rw [List.cons_append, rules_code (isWord_not_mem_openers isWord), ← List.cons_append]
  simp only [rules, List.drop_succ_cons, List.drop_zero, List.findSome?_cons, plain, noImport,
    noPragma, noMember, noFunction, noEllipses, isElement, Option.map_none, Option.map_some]

/-- A comma or an equals sign follows, after white space if there is any. So a name before it is
neither that of an object nor that of an attribute, also at the start of a line. -/
def Closes (after : List Char) : Prop :=
  ∃ gap mark more, after = gap ++ mark :: more ∧ (∀ c ∈ gap, Text.isBlank c = true) ∧
    (mark = ',' ∨ mark = '=')

theorem not_isNameChar_of_isBlank {c : Char} (isBlank : Text.isBlank c = true) :
    isNameChar c = false := by
  have noMark : c ≠ '-' ∧ c ≠ '.' := by
    refine ⟨?_, ?_⟩ <;>
      · rintro rfl
        cases isBlank
  simp [isNameChar, Text.isWord_of_isBlank isBlank, noMark]

namespace Closes

variable {after : List Char}

/-- What follows starts with white space or with one of the two marks. -/
theorem head (closes : Closes after) :
    ∃ c more, after = c :: more ∧ (Text.isBlank c = true ∧ Closes more ∨ c = ',' ∨ c = '=') := by
  obtain ⟨gap, mark, more, rfl, blank, isMark⟩ := closes
  cases gap with
  | nil => exact ⟨mark, more, rfl, Or.inr isMark⟩
  | cons c gap =>
      rw [List.forall_mem_cons] at blank
      exact ⟨c, gap ++ mark :: more, rfl, Or.inl ⟨blank.1, gap, mark, more, rfl, blank.2, isMark⟩⟩

theorem not_isNameChar (closes : Closes after) : after.takeWhile isNameChar = [] := by
  obtain ⟨c, more, rfl, ⟨blank, -⟩ | rfl | rfl⟩ := closes.head
  · exact List.takeWhile_cons_of_neg (by simp [not_isNameChar_of_isBlank blank])
  · exact List.takeWhile_cons_of_neg (by decide)
  · exact List.takeWhile_cons_of_neg (by decide)

theorem endsName (closes : Closes after) : EndsName after := by
  intro d first
  obtain ⟨c, more, rfl, starts⟩ := closes.head
  obtain rfl := Option.some.inj first
  rcases starts with ⟨blank, -⟩ | rfl | rfl
  · exact not_isElementChar_of_isBlank blank
  · decide
  · decide

theorem dropWhile_isBlank (closes : Closes after) :
    ∃ mark more, after.dropWhile Text.isBlank = mark :: more ∧ (mark = ',' ∨ mark = '=') := by
  obtain ⟨gap, mark, more, rfl, blank, isMark⟩ := closes
  refine ⟨mark, more, ?_, isMark⟩
  rw [List.dropWhile_append_of_pos blank, List.dropWhile_cons_of_neg]
  rcases isMark with rfl | rfl <;> decide

end Closes

theorem nameBefore_eq_none {word after : List Char} (isName : IsName word) (closes : Closes after)
    (target : Char) (other : target ∉ [',', '=', '<', '>']) :
    nameBefore target (word ++ after) = none := by
  have passed : after.dropWhile isNameChar = after := by
    have parts := List.takeWhile_append_dropWhile (p := isNameChar) (l := after)
    rwa [closes.not_isNameChar] at parts
  have next : (((word ++ after).dropWhile isNameChar).dropWhile Text.isBlank).head? ≠
      some target := by
    rw [List.dropWhile_append]
    split
    · obtain ⟨mark, more, ahead, isMark⟩ := closes.dropWhile_isBlank
      rw [passed, ahead]
      rintro ⟨⟩
      rcases isMark with rfl | rfl <;> simp at other
    · rename_i more
      -- A name that is not all of a name of an object has an angle bracket behind that.
      cases further : word.dropWhile isNameChar with
      | nil => simp [further] at more
      | cons d rest =>
          have stopped : isNameChar d = false := by
            have here := List.head?_dropWhile_not isNameChar word
            rw [further] at here
            simpa using here
          have inWord : d ∈ word :=
            (List.dropWhile_suffix isNameChar).subset (by rw [further]; simp)
          have bracket : d = '<' ∨ d = '>' := by
            have inside := isName.inside d inWord
            simp only [isNameChar, Bool.or_eq_false_iff, decide_eq_false_iff_not] at stopped
            simpa [isElementChar, stopped] using inside
          have solid : Text.isBlank d = false := by rcases bracket with rfl | rfl <;> decide
          rw [List.cons_append, List.dropWhile_cons_of_neg (by simp [solid])]
          rintro ⟨⟩
          rcases bracket with rfl | rfl <;> simp at other
  unfold nameBefore
  exact if_neg (by simp [Text.spanBlank, next])

theorem inlineComponent_eq_none {word after : List Char} (isName : IsName word)
    (closes : Closes after) (previous : Option Char) :
    inlineComponent previous (word ++ after) = none := by
  unfold inlineComponent
  split
  · rfl
  · rename_i name parted
    have order := List.isPrefixOf?_eq_some_iff_append_eq.mp parted
    have leads : Leads "component".toList (word ++ after) := ⟨' ', name, order.symm, by decide⟩
    have isKey : "component".toList.all isElementChar = true := by decide
    obtain rfl := eq_of_leads (List.all_eq_true.mp isKey) isName.inside closes.endsName leads
    have same : "component".toList ++ ' ' :: name = "component".toList ++ after := order
    obtain rfl : ' ' :: name = after := List.append_cancel_left same
    obtain ⟨c, more, isAfter, starts⟩ := closes.head
    obtain ⟨rfl, rfl⟩ := List.cons.inj isAfter
    rcases starts with ⟨-, further⟩ | other | other
    · simp [further.not_isNameChar]
    · cases other
    · cases other

/-- A name before a comma or an equals sign is found as an element. -/
theorem find?_name {word after : List Char} (isName : IsName word) (closes : Closes after)
    (firstOnLine : Bool) (previous : Option Char) :
    find? firstOnLine previous (word ++ after) = some ⟨.element, 0, word⟩ := by
  have noLine : lineRules.findSome? (fun rule => rule previous (word ++ after)) = none := by
    simp [lineRules, plain, inlineComponent_eq_none isName closes,
      nameBefore_eq_none isName closes '\x7b' (by decide),
      nameBefore_eq_none isName closes ':' (by decide)]
  exact find?_of_rules noLine (rules_name isName closes.endsName previous) firstOnLine

/-- The word of an enumeration or of a property is a keyword before a name. -/
theorem find?_keyword {key : List Char} (isKey : key = "enum".toList ∨ key = "property".toList)
    {gap rest : List Char} {c : Char} (spaced : gap ≠ [])
    (blank : ∀ d ∈ gap, Text.isBlank d = true) (isWord : Text.isWord c = true)
    (firstOnLine : Bool) (previous : Option Char) :
    find? firstOnLine previous (key ++ (gap ++ c :: rest)) = some ⟨.keyword, 0, key⟩ := by
  obtain ⟨d, gap, rfl⟩ := List.exists_cons_of_ne_nil spaced
  have isBlank : Text.isBlank d = true := blank d (by simp)
  have noName : isNameChar d = false := not_isNameChar_of_isBlank isBlank
  have solid : Text.isBlank c = false := by
    by_contra blankToo
    rw [Text.isWord_of_isBlank (Bool.of_not_eq_false blankToo)] at isWord
    cases isWord
  have passed : (d :: gap ++ c :: rest).dropWhile Text.isBlank = c :: rest := by
    rw [List.dropWhile_append_of_pos blank, List.dropWhile_cons_of_neg (by simp [solid])]
  have behind : (key ++ (d :: gap ++ c :: rest)).dropWhile isNameChar = d :: gap ++ c :: rest := by
    have inName : key.all isNameChar = true := by rcases isKey with rfl | rfl <;> decide
    rw [List.dropWhile_append_of_pos (List.all_eq_true.mp inName), List.cons_append,
      List.dropWhile_cons_of_neg (by simp [noName])]
  have noTarget (target : Char) (noWord : Text.isWord target = false) :
      nameBefore target (key ++ (d :: gap ++ c :: rest)) = none := by
    have other : c ≠ target := by
      rintro rfl
      rw [noWord] at isWord
      cases isWord
    simp only [nameBefore, Text.spanBlank, behind, passed]
    exact if_neg (by simp [other])
  have noLine : lineRules.findSome?
      (fun rule => rule previous (key ++ (d :: gap ++ c :: rest))) = none := by
    simp only [lineRules, plain, List.findSome?_cons, noTarget '\x7b' (by decide),
      noTarget ':' (by decide)]
    rcases isKey with rfl | rfl <;> simp [inlineComponent, List.isPrefixOf?]
  have inLine : rules.findSome? (fun rule => rule previous (key ++ (d :: gap ++ c :: rest))) =
      some ⟨.keyword, 0, key⟩ := by
    have away : 'e' ∉ openers ∧ 'p' ∉ openers := by decide
    rcases isKey with rfl | rfl
    · have starts : "enum".toList ++ (d :: gap ++ c :: rest) =
          'e' :: ("num".toList ++ d :: (gap ++ c :: rest)) := rfl
      rw [starts, rules_code away.1]
      simp [rules, plain, directive, memberKeyword, wordsBefore, wordBefore, List.isPrefixOf?,
        isBlank]
    · have starts : "property".toList ++ (d :: gap ++ c :: rest) =
          'p' :: ("roperty".toList ++ d :: (gap ++ c :: rest)) := rfl
      rw [starts, rules_code away.2]
      simp [rules, plain, directive, memberKeyword, wordsBefore, wordBefore, List.isPrefixOf?,
        isBlank]
  exact find?_of_rules noLine inLine firstOnLine

/-- The run of comment lines ends with the first line that is followed by another text. -/
theorem lineRun_line (opens : List Char → Bool) (line more : List Char) (inLine : '\n' ∉ line)
    (ends : opens (more.dropWhile Text.isIndent) = false) :
    lineRun opens (line ++ '\n' :: more) = line := by
  induction line with
  | nil => simp [lineRun, ends]
  | cons c line ih =>
      rw [List.mem_cons, not_or] at inLine
      rw [List.cons_append, lineRun, if_neg (Ne.symm inLine.1), ih inLine.2]

/-- An inline comment of one line. -/
theorem find?_note {line more : List Char} (inLine : '\n' ∉ line)
    (ends : (more.dropWhile Text.isIndent).head? ≠ some '/') (firstOnLine : Bool)
    (previous : Option Char) :
    find? firstOnLine previous ("///<".toList ++ line ++ '\n' :: more) =
      some ⟨.inlineComment, 0, "///<".toList ++ line⟩ := by
  have stops : opensInline '/' '/' ['/', '!'] (more.dropWhile Text.isIndent) = false := by
    by_contra opens
    obtain ⟨further, starts⟩ := opensInline_cons _ _ _ _ (Bool.of_not_eq_false opens)
    exact ends (by rw [starts]; rfl)
  have run := lineRun_line (opensInline '/' '/' ['/', '!']) ("///<".toList ++ line) more
    (by simpa using inLine) stops
  have inLine : rules.findSome?
      (fun rule => rule previous ("///<".toList ++ line ++ '\n' :: more)) =
      some ⟨.inlineComment, 0, "///<".toList ++ line⟩ := by
    simp only [rules, List.findSome?_cons, plain, inlineBlock, inlineLines]
    rw [run]
    rfl
  have noLine : lineRules.findSome?
      (fun rule => rule previous ("///<".toList ++ line ++ '\n' :: more)) = none := by
    simp [lineRules, plain, inlineComponent, nameBefore, List.isPrefixOf?,
      show isNameChar '/' = false by decide]
  exact find?_of_rules noLine inLine firstOnLine

end Lexeme

end QmlDoc
