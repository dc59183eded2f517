import QmlDoc.Pattern.Replace

set_option autoImplicit false

namespace QmlDoc

namespace Text

/-- The text with `sub` in place of every occurrence of the word, found from left to right. -/
def replaceWord (word sub : List Char) : List Char → List Char
  | [] => []
  | c :: rest =>
      if word.isPrefixOf (c :: rest) then
        sub ++ replaceWord word sub (rest.drop (word.length - 1))
      else c :: replaceWord word sub rest
termination_by text => text.length
decreasing_by all_goals simp only [List.length_cons, List.length_drop]; omega

section

variable {word : List Char} (sub : List Char)

theorem replaceWord_nil : replaceWord word sub [] = [] := by
  rw [replaceWord]

theorem replaceWord_append (nonempty : word ≠ []) (rest : List Char) :
    replaceWord word sub (word ++ rest) = sub ++ replaceWord word sub rest := by
  obtain ⟨c, tail, rfl⟩ := List.exists_cons_of_ne_nil nonempty
  have found : (c :: tail).isPrefixOf (c :: (tail ++ rest)) = true :=
    List.isPrefixOf_iff_prefix.mpr ⟨rest, rfl⟩
  rw [List.cons_append, replaceWord, if_pos found, List.length_cons, Nat.add_sub_cancel,
    List.drop_left]

theorem replaceWord_cons {c : Char} {rest : List Char}
    (other : ¬word.isPrefixOf (c :: rest) = true) :
    replaceWord word sub (c :: rest) = c :: replaceWord word sub rest := by
  rw [replaceWord, if_neg other]

end

/-- A text is empty, or starts with the word, or with a character at which the word is not. -/
theorem word_induction {word : List Char} (nonempty : word ≠ []) {motive : List Char → Prop}
    (nil : motive []) (found : ∀ rest, motive rest → motive (word ++ rest))
    (other : ∀ c rest, ¬word.isPrefixOf (c :: rest) = true → motive rest → motive (c :: rest))
    (text : List Char) : motive text := by
  induction size : text.length using Nat.strongRecOn generalizing text with
  | ind size ih =>
      subst size
      cases text with
      | nil => exact nil
      | cons c rest =>
          by_cases here : word.isPrefixOf (c :: rest) = true
          · obtain ⟨later, order⟩ := List.isPrefixOf_iff_prefix.mp here
            rw [← order]
            have positive := List.length_pos_iff.mpr nonempty
            refine found later (ih _ ?_ later rfl)
            rw [← order, List.length_append]
            omega
          · exact other c rest here (ih _ (Nat.lt_succ_self _) rest rfl)

theorem contains_append_self (word rest : List Char) : contains word (word ++ rest) = true := by
  have here : word.isPrefixOf (word ++ rest) = true := List.isPrefixOf_iff_prefix.mpr ⟨rest, rfl⟩
  cases text : word ++ rest with
  | nil =>
      rw [(List.append_eq_nil_iff.mp text).1]
      rfl
  | cons c later =>
      rw [text] at here
      rw [contains, here, Bool.true_or]

section

variable {word : List Char} (nonempty : word ≠ [])

include nonempty

theorem replaceWord_of_absent (sub : List Char) {text : List Char}
    (absent : contains word text = false) : replaceWord word sub text = text := by
  induction text using word_induction nonempty with
  | nil => exact replaceWord_nil sub
  | found rest _ =>
      rw [contains_append_self] at absent
      cases absent
  | other c rest notHere ih =>
      rw [contains, Bool.or_eq_false_iff] at absent
      rw [replaceWord_cons sub notHere, ih absent.2]

theorem replaceWord_self (text : List Char) : replaceWord word word text = text := by
  induction text using word_induction nonempty with
  | nil => exact replaceWord_nil word
  | found rest ih => rw [replaceWord_append word nonempty, ih]
  | other c rest notHere ih => rw [replaceWord_cons word notHere, ih]

/-- Each of the occurrences that are replaced changes the length by the same amount. -/
theorem length_replaceWord (sub text : List Char) : ∃ count,
    (replaceWord word sub text).length + count * word.length =
      text.length + count * sub.length := by
  induction text using word_induction nonempty with
  | nil => exact ⟨0, by rw [replaceWord_nil, Nat.zero_mul, Nat.zero_mul]⟩
  | found rest ih =>
      obtain ⟨count, lengths⟩ := ih
      refine ⟨count + 1, ?_⟩
      rw [replaceWord_append sub nonempty, List.length_append, List.length_append, Nat.succ_mul,
        Nat.succ_mul]
      omega
  | other c rest notHere ih =>
      obtain ⟨count, lengths⟩ := ih
      refine ⟨count, ?_⟩
      rw [replaceWord_cons sub notHere, List.length_cons, List.length_cons]
      omega

/-- Replacing a word leaves a text alone only if it is not there or stands for itself. -/
theorem replaceWord_eq_self_iff (sub text : List Char) :
    replaceWord word sub text = text ↔ sub = word ∨ contains word text = false := by
  constructor
  · intro kept
    induction text using word_induction nonempty with
    | nil =>
        right
        rw [contains, List.isEmpty_eq_false_iff]
        exact nonempty
    | found rest _ =>
        left
        rw [replaceWord_append sub nonempty] at kept
        have lengths := congrArg List.length kept
        rw [List.length_append, List.length_append] at lengths
        -- All occurrences change the length by the same amount, which is none in the end.
        obtain ⟨count, behind⟩ := length_replaceWord nonempty sub rest
        have same : sub.length = word.length := by
          apply Nat.eq_of_mul_eq_mul_left (Nat.succ_pos count)
          rw [Nat.succ_mul, Nat.succ_mul]
          omega
        exact (List.append_inj kept same).1
    | other c rest notHere ih =>
        rw [replaceWord_cons sub notHere] at kept
        rcases ih (List.cons.inj kept).2 with same | absent
        · exact Or.inl same
        · exact Or.inr (by rw [contains, absent, Bool.or_false, Bool.eq_false_iff]; exact notHere)
  · rintro (rfl | absent)
    · exact replaceWord_self nonempty text
    · exact replaceWord_of_absent nonempty sub absent

end

theorem continuesIdentifier_of_isIdentifier {word : List Char} (ident : isIdentifier word = true) :
    word ≠ [] ∧ ∀ c ∈ word, continuesIdentifier c = true := by
  cases word with
  | nil => cases ident
  | cons first rest =>
      rw [isIdentifier, Bool.and_eq_true, List.all_eq_true] at ident
      have starts : continuesIdentifier first = true := by
        have started := ident.1
        rw [startsIdentifier] at started
        rw [continuesIdentifier, startsIdentifier, Char.isAlphanum]
        split at started
        next ascii =>
          rw [if_pos ascii]
          rw [Bool.or_eq_true] at started ⊢
          exact started.imp_left fun letter => by rw [letter, Bool.true_or]
        next beyond => rw [if_neg beyond, if_neg beyond, started, Bool.true_or]
      refine ⟨List.cons_ne_nil _ _, fun c member => ?_⟩
      rcases List.mem_cons.mp member with rfl | later
      · exact starts
      · exact ident.2 c later

end Text

namespace Pattern

def specials : List Char :=
  ['.', '^', '$', '*', '+', '?', '\\', '|', '(', ')', '[', '\x7b']

/-- Characters that stand for themselves. -/
def isLiteral (c : Char) : Bool :=
  !specials.contains c

theorem isLiteral_of_continuesIdentifier {c : Char}
    (continues : Text.continuesIdentifier c = true) : isLiteral c = true := by
  rw [isLiteral, Bool.not_eq_true', ← Bool.not_eq_true, List.contains_iff_mem]
  intro special
  have excluded : specials.all (fun c => !Text.continuesIdentifier c) = true := by decide
  have stops := List.all_eq_true.mp excluded c special
  rw [continues] at stops
  cases stops

def one (c : Char) : Pattern :=
  oneOf .exact false [.exactly c.toNat]

def literal (word : List Char) : Parsed :=
  ⟨seqAll (word.map one), 0, [], false⟩

/-- The text from some place on, without flags and groups before it. -/
def Source.bare (rest : List Char) (pos : Nat) : Source :=
  ⟨rest, pos, [], [], [], none, []⟩

namespace Parsing

variable {α β : Type} (source : Source)

theorem bind_of_ok {first : Parsing α} {next : α → Parsing β} {source after : Source} {value : α}
    (done : first source = .ok (value, after)) : (first >>= next) source = next value after := by
  simp only [bind, StateT.bind, done, Except.bind]

theorem get_bind (next : Source → Parsing β) : (get >>= next) source = next source source :=
  rfl

theorem place_bind (next : Nat → Parsing β) : (place >>= next) source = next source.pos source :=
  rfl

theorem peek_bind (next : Option Char → Parsing β) :
    (peek >>= next) source = next source.rest.head? source :=
  rfl

end Parsing

theorem checkEscape_plain {text : List Char} (unescaped : '\\' ∉ text) (pos : Nat) :
    Parsing.checkEscape (.bare text pos) = .ok ((), .bare text pos) := by
  have noEscape : text ≠ ['\\'] := by
    rintro rfl
    simp at unescaped
  rw [Parsing.checkEscape, Parsing.get_bind]
  exact congrFun (if_neg noEscape) _

theorem symbol_plain {c : Char} (notEscape : c ≠ '\\') {rest : List Char}
    (unescaped : '\\' ∉ rest) (pos : Nat) :
    Parsing.symbol (.bare (c :: rest) pos) = .ok (some (.plain c), .bare rest (pos + 1)) := by
  have advance : Parsing.advance 1 (.bare (c :: rest) pos) = .ok ((), .bare rest (pos + 1)) :=
    checkEscape_plain unescaped (pos + 1)
  have taken : (do Parsing.advance 1; pure (some (.plain c)) : Parsing (Option Symbol))
      (.bare (c :: rest) pos) = .ok (some (.plain c), .bare rest (pos + 1)) :=
    Parsing.bind_of_ok advance
  rw [Parsing.symbol, Parsing.get_bind]
  -- The match is applied to the source, and can be split only without it.
  refine (congrFun ?_ _).trans taken
  dsimp only [Source.bare]
  split
  next order => exact absurd (List.cons.inj order).1 notEscape
  next order =>
    obtain ⟨rfl, rfl⟩ := List.cons.inj order
    rfl
  next order => cases order

theorem ne_of_isLiteral {c special : Char} (literal : isLiteral c = true)
    (meant : isLiteral special = false) : c ≠ special := by
  rintro rfl
  rw [literal] at meant
  cases meant

theorem plainPart_literal {c : Char} (literal : isLiteral c = true) (start : Nat)
    (parts : List Part) (rest : List Char) (pos : Nat) :
    plainPart start c parts (.bare rest pos) =
      .ok (.single (one c) :: parts, .bare rest pos) := by
  have isNot {special : Char} : isLiteral special = false → c ≠ special := ne_of_isLiteral literal
  have once : ¬(c = '*' || c = '+' || c = '?' || c = '\x7b') = true := by
    simp [@isNot '*' rfl, @isNot '+' rfl, @isNot '?' rfl, @isNot '\x7b' rfl]
  rw [plainPart, Parsing.get_bind]
  split
  next => cases literal
  next => cases literal
  next => cases literal
  next => cases literal
  next =>
    rw [if_neg once]
    rfl

theorem sequence_cons (part : Part) (parts : List Part) :
    sequence (part :: parts) = sequence parts ++ part.patterns := by
  simp [sequence]

theorem readParts_literal (word : List Char) :
    (∀ c ∈ word, isLiteral c = true) → ∀ (first : Bool) (parts : List Part) (pos : Nat),
    readParts (word.length + 1) first parts (.bare word pos) =
      .ok (sequence parts ++ word.map one, .bare [] (pos + word.length)) := by
  induction word with
  | nil =>
      intro _ first parts pos
      rw [List.map_nil, List.append_nil]
      rfl
  | cons c rest ih =>
      intro plain first parts pos
      have literal := plain c (by simp)
      have later : ∀ d ∈ rest, isLiteral d = true := fun d member => plain d (by simp [member])
      have isNot {special : Char} : isLiteral special = false → c ≠ special :=
        ne_of_isLiteral literal
      have unescaped : '\\' ∉ rest := fun member => by cases later _ member
      have inside : ¬(Source.bare (c :: rest) pos).rest.head?.all
          (fun c => c = '|' || c = ')') = true := by
        simp [Source.bare, @isNot '|' rfl, @isNot ')' rfl]
      rw [List.length_cons, readParts, Parsing.place_bind, Parsing.peek_bind]
      rw [if_neg inside, Parsing.get_bind,
        Parsing.bind_of_ok (symbol_plain (@isNot '\\' rfl) unescaped pos)]
      dsimp only
      rw [if_neg (by simp [Source.bare]), if_neg (by simp [Source.bare]), if_neg (@isNot '(' rfl),
        Parsing.bind_of_ok (plainPart_literal literal _ _ _ _), ih later, sequence_cons,
        List.append_assoc, Nat.add_assoc pos, Nat.add_comm 1]
      rfl

theorem checkParts_literal (once : Bool) (word : List Char) :
    checkParts once (seqAll (word.map one)) = .ok () := by
  induction word with
  | nil => rfl
  | cons c rest ih =>
      cases rest with
      | nil => rfl
      | cons d rest => exact ih

/-- A word of letters is a pattern for itself. -/
theorem parse_literal {word : List Char} (plain : ∀ c ∈ word, isLiteral c = true) :
    parse word = .ok (literal word) := by
  have unescaped : '\\' ∉ word := fun member => by cases plain _ member
  have read : (do
      Parsing.checkEscape
      let pattern ← readWhole (word.length + 1)
      checkWhole
      pure pattern : Parsing Pattern) (.ofText word) =
        .ok (seqAll (word.map one), .bare [] word.length) := by
    have start : Parsing.checkEscape (.ofText word) = .ok ((), .bare word 0) :=
      checkEscape_plain unescaped 0
    have whole : readWhole (word.length + 1) (.bare word 0) =
        .ok (seqAll (word.map one), .bare [] word.length) := by
      rw [readWhole, Parsing.bind_of_ok (readParts_literal word plain true [] 0), Nat.zero_add]
      rfl
    rw [Parsing.bind_of_ok start, Parsing.bind_of_ok whole]
    rfl
  rw [parse]
  simp only [StateT.run]
  rw [read]
  change (checkParts false (seqAll (word.map one)) >>= fun _ => _) = _
  rw [checkParts_literal]
  rfl

theorem Spot.forward_forward (spot : Spot) (first second : Nat) :
    (spot.forward first).forward second = spot.forward (first + second) := by
  simp [forward, List.take_add, List.drop_drop]

theorem run_seqAll_cons (first : Pattern) (later : List Pattern) (repeating : Bool) (spot : Spot)
    (goal : Goal) : (seqAll (first :: later)).run repeating spot goal =
      first.run repeating spot fun next => (seqAll later).run repeating next goal := by
  cases later <;> rfl

theorem run_one (c : Char) (repeating : Bool) (spot : Spot) (goal : Goal) :
    (one c).run repeating spot goal = matchChar (· = c) spot goal := by
  have same (d : Char) : ([CharTest.exactly c.toNat].any (·.holds .exact d) != false) =
      decide (d = c) := by
    simp [CharTest.holds, CaseRule.variants, eq_comm, Char.toNat_inj]
  rw [one, run]
  simp only [same]

theorem run_literal (word : List Char) : ∀ (repeating : Bool) (spot : Spot) (goal : Goal),
    (seqAll (word.map one)).run repeating spot goal =
      if word.isPrefixOf spot.rest then goal (spot.forward word.length)
      else .error spot.marks := by
  induction word with
  | nil => intro repeating spot goal; rfl
  | cons c word ih =>
      intro repeating spot goal
      rw [List.map_cons, run_seqAll_cons, run_one, matchChar]
      obtain ⟨before, rest, marks⟩ := spot
      cases rest with
      | nil => rfl
      | cons d rest =>
          dsimp only [List.head?_cons]
          by_cases same : d = c
          · subst same
            rw [if_pos (by simp), ih, Spot.forward_forward, List.length_cons, Nat.add_comm 1]
            simp [Spot.forward]
          · rw [if_neg (by simp [same]), if_neg (by simp [List.isPrefixOf, Ne.symm same])]

theorem mayStart_literal (ascii : Bool) (word : List Char) (c : Char) :
    mayStart ascii (seqAll (word.map one)) c = true := by
  match word with
  | [] | [_] | _ :: _ :: _ => simp [seqAll, one, mayStart, CharTest.inScript]

theorem matchAt_literal (word : List Char) (blocked : Bool) (spot : Spot) :
    matchAt (literal word) blocked spot =
      if word.isPrefixOf spot.rest then
        let stop := (({ spot with marks := [] } : Spot).enter 0).forward word.length
        if blocked && stop.pos = spot.pos then none else some (stop.leave 0)
      else none := by
  have tried : spot.rest.head?.all (mayStart false (seqAll (word.map one))) = true := by
    cases spot.rest <;> simp [mayStart_literal]
  rw [matchAt, literal]
  dsimp only
  rw [if_pos tried, run_literal]
  change (if word.isPrefixOf spot.rest = true then _ else _ : Outcome).toOption = _
  split
  · split <;> rfl
  · rfl

def Spot.behind (before word rest : List Char) : Spot :=
  ⟨word.reverse ++ before, rest, [(1, word.length + before.length), (0, before.length)]⟩

theorem matchAt_found {word : List Char} (nonempty : word ≠ []) (blocked : Bool)
    (before rest : List Char) (marks : Marks) :
    matchAt (literal word) blocked ⟨before, word ++ rest, marks⟩ =
      some (.behind before word rest) := by
  have here : word.isPrefixOf (word ++ rest) = true := List.isPrefixOf_iff_prefix.mpr ⟨rest, rfl⟩
  rw [matchAt_literal, if_pos here]
  simp [Spot.enter, Spot.forward, Spot.leave, Spot.pos, Spot.behind, nonempty]

/-- The text of a template for a match that is the word. -/
def Template.filled (template : Template) (word : List Char) : List Char :=
  template.flatMap fun
    | .text chars => chars
    | .groupText number => if number = 0 then word else []

theorem groupText?_behind (before word rest : List Char) (number : Nat) :
    (Spot.behind before word rest).groupText? number = if number = 0 then some word else none := by
  cases number with
  | zero =>
      simp [Spot.behind, Spot.groupText?, Spot.span?, Spot.slice, List.lookup_cons]
  | succ number =>
      have notStop : (2 * (number + 1) == 1) = false := by
        rw [beq_eq_false_iff_ne]
        omega
      have notStart : (2 * (number + 1) == 0) = false := rfl
      simp [Spot.behind, Spot.groupText?, Spot.span?, List.lookup_cons, notStop, notStart]

theorem expand_literal (template : Template) (before word rest : List Char) :
    template.expand (literal word).groups (.behind before word rest) =
      .ok (template.filled word) := by
  have same (number : Nat) : ((Spot.behind before word rest).groupText? number).getD [] =
      if number = 0 then word else [] := by
    rw [groupText?_behind]
    split <;> rfl
  rw [Template.expand]
  dsimp only
  split
  · rename_i outOfOrder
    -- the word is the only group, and does not end before it starts
    have groups : List.range ((literal word).groups + 1) = [0] := rfl
    have span : (Spot.behind before word rest).span? 0 =
        some (before.length, word.length + before.length) := by
      simp [Spot.behind, Spot.span?, List.lookup_cons]
    rw [Bool.and_eq_true, groups, List.any_cons, span, List.any_nil, Bool.or_false,
      Option.any_some, decide_eq_true_eq] at outOfOrder
    omega
  · simp only [same]
    rfl

theorem replaceFrom_literal {word : List Char} (nonempty : word ≠ []) (template : Template)
    (text : List Char) : ∀ (n : Nat) (blocked : Bool) (before : List Char) (marks : Marks),
    text.length < n →
    replaceFrom (literal word) template n blocked ⟨before, text, marks⟩ =
      .ok (Text.replaceWord word (template.filled word) text) := by
  induction text using Text.word_induction nonempty with
  | nil =>
      intro n blocked before marks bound
      obtain ⟨n, rfl⟩ := Nat.exists_eq_succ_of_ne_zero (Nat.ne_of_gt bound)
      rw [replaceFrom, matchAt_literal, if_neg (by simp [nonempty]), Text.replaceWord_nil]
      rfl
  | found rest ih =>
      intro n blocked before marks bound
      obtain ⟨n, rfl⟩ := Nat.exists_eq_succ_of_ne_zero (Nat.ne_of_gt (Nat.zero_lt_of_lt bound))
      have positive := List.length_pos_iff.mpr nonempty
      rw [List.length_append] at bound
      have onward (blocked : Bool) : replaceFrom (literal word) template n blocked
          (.behind before word rest) = .ok (Text.replaceWord word (template.filled word) rest) :=
        ih n _ _ _ (by omega)
      rw [replaceFrom, matchAt_found nonempty]
      dsimp only
      rw [expand_literal, onward, Text.replaceWord_append _ nonempty]
      rfl
  | other c rest notHere ih =>
      intro n blocked before marks bound
      obtain ⟨n, rfl⟩ := Nat.exists_eq_succ_of_ne_zero (Nat.ne_of_gt (Nat.zero_lt_of_lt bound))
      rw [List.length_cons] at bound
      have onward : replaceFrom (literal word) template n false
          (Spot.forward ⟨before, c :: rest, marks⟩ 1) =
            .ok (Text.replaceWord word (template.filled word) rest) :=
        ih n _ _ _ (by omega)
      rw [replaceFrom, matchAt_literal, if_neg notHere, Text.replaceWord_cons _ notHere]
      dsimp only
      rw [onward]
      rfl

/-- Replacing a word of letters by a template. -/
theorem replace_literal {short : String} (nonempty : short.toList ≠ [])
    (plain : ∀ c ∈ short.toList, isLiteral c = true) (template name : String) :
    replace short template name =
      (parseTemplate (literal short.toList) template.toList).map fun parts =>
        String.ofList (Text.replaceWord short.toList (parts.filled short.toList) name.toList) := by
  rw [replace, parse_literal plain]
  simp only [bind, Except.bind]
  cases parseTemplate (literal short.toList) template.toList with
  | error error => rfl
  | ok parts =>
      dsimp only [Spot.ofText]
      rw [replaceFrom_literal nonempty parts _ _ _ _ _ (by rw [String.length_toList]; omega)]
      rfl

theorem templateFrom_plain (parsed : Parsed) (text : List Char) :
    '\\' ∉ text → ∀ pos, templateFrom parsed (text.length + 1) (.bare text pos) =
      .ok (text.map (fun c => .text [c]), .bare [] (pos + text.length)) := by
  induction text with
  | nil => intro _ pos; rfl
  | cons c rest ih =>
      intro unescaped pos
      rw [List.mem_cons, not_or] at unescaped
      rw [List.length_cons, templateFrom, Parsing.place_bind,
        Parsing.bind_of_ok (symbol_plain (Ne.symm unescaped.1) unescaped.2 pos)]
      dsimp only
      rw [Parsing.bind_of_ok (ih unescaped.2 (pos + 1)), Nat.add_assoc pos, Nat.add_comm 1]
      rfl

/-- A template without a backslash stands for itself. -/
theorem parseTemplate_plain (parsed : Parsed) {text : List Char} (unescaped : '\\' ∉ text) :
    parseTemplate parsed text = .ok (text.map fun c => .text [c]) := by
  have start : Parsing.checkEscape (.ofText text) = .ok ((), .bare text 0) :=
    checkEscape_plain unescaped 0
  rw [parseTemplate]
  simp only [StateT.run]
  rw [Parsing.bind_of_ok start, templateFrom_plain parsed text unescaped]
  rfl

theorem filled_plain (text word : List Char) :
    Template.filled (text.map fun c => .text [c]) word = text := by
  simp [Template.filled, List.flatMap_map]

end Pattern

end QmlDoc
