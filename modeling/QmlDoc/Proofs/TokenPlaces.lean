import QmlDoc.Disk.Tree
import QmlDoc.Filter
import QmlDoc.Proofs.ArrangedOrder
import QmlDoc.Proofs.LexemeWords
import QmlDoc.Proofs.ReadErrors

set_option autoImplicit false

namespace QmlDoc

namespace Text

/-- A backslash at `place` continues its line. -/
def Continues (text : List Char) (place : Nat) : Prop :=
  text[place]? = some '\\' ∧ text[place + 1]? = some '\n'

instance (text : List Char) (place : Nat) : Decidable (Continues text place) :=
  inferInstanceAs (Decidable (_ ∧ _))

/-- How many lines are continued before `place`. -/
def continued (text : List Char) (place : Nat) : Nat :=
  (List.range place).countP fun i => Continues text i

theorem continued_succ (text : List Char) (place : Nat) :
    continued text (place + 1) =
      continued text place + if Continues text place then 1 else 0 := by
  simp [continued, List.range_succ, List.countP_singleton]

theorem continued_cons (c : Char) (rest : List Char) (place : Nat) :
    continued (c :: rest) (place + 1) =
      (if Continues (c :: rest) 0 then 1 else 0) + continued rest place := by
  have shifted : (List.range place).countP ((fun i => Continues (c :: rest) i) ∘ Nat.succ) =
      continued rest place :=
    List.countP_congr fun i _ => by simp only [Function.comp_apply, decide_eq_true_eq]; rfl
  rw [continued, List.range_succ_eq_map, List.countP_cons, List.countP_map, shifted, Nat.add_comm]
  simp

theorem continued_add_le (text : List Char) (place n : Nat) :
    continued text (place + n) ≤ continued text place + n := by
  induction n with
  | zero => exact Nat.le_refl _
  | succ n ih =>
      rw [← Nat.add_assoc, continued_succ]
      split <;> omega

/-- The characters that a text keeps when its lines are joined can be counted. -/
theorem kept_unique {text : List Char} {idx first second : Nat}
    (firstKept : ¬Continues text first) (secondKept : ¬Continues text second)
    (countsFirst : first = idx + continued text first)
    (countsSecond : second = idx + continued text second) : first = second := by
  have notBefore {p q : Nat} (kept : ¬Continues text p) (countsP : p = idx + continued text p)
      (countsQ : q = idx + continued text q) : ¬p < q := by
    intro before
    obtain ⟨n, rfl⟩ := Nat.exists_eq_add_of_lt before
    have bound := continued_add_le text (p + 1) n
    rw [continued_succ, if_neg kept] at bound
    rw [Nat.add_right_comm] at bound
    omega
  have notLess := notBefore firstKept countsFirst countsSecond
  have notMore := notBefore secondKept countsSecond countsFirst
  omega

/-- Each character of the joined text is one of the text, farther right by the number of lines
that are continued before it. -/
theorem joinContinued_getElem? (text : List Char) (idx : Nat) (c : Char)
    (present : (Scanner.joinContinued text)[idx]? = some c) :
    ∃ place, text[place]? = some c ∧ ¬Continues text place ∧
      place = idx + continued text place := by
  fun_induction Scanner.joinContinued text generalizing idx with
  | case1 rest ih =>
      cases idx with
      | zero =>
          obtain rfl := Option.some.inj present
          exact ⟨1, rfl, by simp [Continues], by simp [continued, Continues, List.range_succ]⟩
      | succ idx =>
          obtain ⟨place, there, kept, counts⟩ := ih idx present
          refine ⟨place + 2, there, kept, ?_⟩
          have first : Continues ('\\' :: '\n' :: rest) 0 := ⟨rfl, rfl⟩
          have second : ¬Continues ('\n' :: rest) 0 := by simp [Continues]
          rw [continued_cons, continued_cons, if_pos first, if_neg second]
          omega
  | case2 c rest inLine ih =>
      have first : ¬Continues (c :: rest) 0 := by
        rintro ⟨isBackslash, isNewline⟩
        obtain rfl := Option.some.inj isBackslash
        cases rest with
        | nil => cases isNewline
        | cons next rest => exact inLine rest rfl (congrArg (· :: rest) (Option.some.inj isNewline))
      cases idx with
      | zero => exact ⟨0, present, first, rfl⟩
      | succ idx =>
          obtain ⟨place, there, kept, counts⟩ := ih idx present
          refine ⟨place + 1, there, kept, ?_⟩
          rw [continued_cons, if_neg first]
          omega
  | case3 => cases present

/-- Two places have the same row and the same column. -/
def SameSpot (text : List Char) (first second : Nat) : Prop :=
  row text first = row text second ∧ column text first = column text second

instance (text : List Char) (first second : Nat) : Decidable (SameSpot text first second) :=
  inferInstanceAs (Decidable (_ ∧ _))

/-- On one line the column grows with the place. -/
theorem column_add (text : List Char) (place n : Nat) (inside : place + n ≤ text.length)
    (sameRow : row text place = row text (place + n)) :
    column text (place + n) = column text place + n := by
  have parts : text.take (place + n) = text.take place ++ (text.drop place).take n :=
    List.take_add
  have inLine : '\n' ∉ (text.drop place).take n := by
    rw [row, row, parts, List.count_append] at sameRow
    exact List.count_eq_zero.mp (by omega)
  have passes : ∀ c ∈ ((text.drop place).take n).reverse, (c ≠ '\n' : Bool) = true := by
    intro c member
    rw [List.mem_reverse] at member
    simpa using ne_of_mem_of_not_mem member inLine
  have size : ((text.drop place).take n).length = n := by
    rw [List.length_take, List.length_drop]
    omega
  rw [column, lineHead, parts, List.reverse_append, List.takeWhile_append_of_pos passes, column,
    lineHead]
  simp only [List.reverse_append, List.reverse_reverse, List.length_append, size]
  omega

/-- Row and column together tell the place. -/
theorem SameSpot.eq {text : List Char} {first second : Nat} (same : SameSpot text first second)
    (firstInside : first ≤ text.length) (secondInside : second ≤ text.length) :
    first = second := by
  obtain ⟨sameRow, sameColumn⟩ := same
  rcases Nat.le_total first second with ordered | ordered
  · obtain ⟨n, rfl⟩ := Nat.exists_eq_add_of_le ordered
    have grown := column_add text first n secondInside sameRow
    omega
  · obtain ⟨n, rfl⟩ := Nat.exists_eq_add_of_le ordered
    have grown := column_add text second n firstInside sameRow.symm
    omega

end Text

namespace Token

/-- The characters of the text that the token stands for, comments as they are outdented. -/
def spelling (token : Token) : List Char :=
  token.kind.opening ++ token.value.toList

/-- The first character of the token is that of the text at its index, and no white space. -/
def StartsIn (token : Token) (text : List Char) : Prop :=
  ∃ c, text[token.idx]? = some c ∧ token.spelling.head? = some c ∧ Text.isBlank c = false

/-- A line that starts with no white space is not outdented. -/
theorem outdentsTo_solid {n : Nat} {c : Char} {line shifted : List Char}
    (solid : Text.isBlank c = false) (outdents : Text.OutdentsTo n (c :: line) shifted) :
    shifted = c :: line := by
  rcases outdents with ⟨indent, -, indents, parts⟩ | ⟨-, same⟩
  · cases indent with
    | nil => exact parts.symm
    | cons first indent =>
        obtain ⟨rfl, -⟩ := List.cons.inj parts
        rw [Text.isBlank_of_isIndent (indents c (by simp))] at solid
        cases solid
  · exact same

/-- The first character of a text is that of its first line. -/
theorem head?_of_splitOn {c : Char} {line : List Char} {later : List (List Char)}
    {text : List Char} (lines : text.splitOn '\n' = (c :: line) :: later) :
    text.head? = some c := by
  have isText := text.intercalate_splitOn '\n'
  rw [lines] at isText
  rw [← isText]
  cases later <;> simp [List.intercalate, List.intersperse]

/-- A comment keeps its first character. -/
theorem Settles.head?_value {token final : Token} {c : Char} (settles : token.Settles final)
    (solid : Text.isBlank c = false) (starts : token.value.toList.head? = some c) :
    final.value.toList.head? = some c := by
  cases isComment : token.isComment with
  | false => rwa [settles.value (Or.inl isComment)]
  | true =>
      have lines := settles.lines isComment
      obtain ⟨rest, isValue⟩ := List.head?_eq_some_iff.mp starts
      have inLine : c ≠ '\n' := by
        rintro rfl
        cases solid
      obtain ⟨line, later, -, pieces⟩ := Text.splitOn_cons '\n' c rest inLine
      rw [isValue, pieces] at lines
      obtain ⟨shifted, laterShifted, outdents, -, isSplit⟩ :=
        List.forall₂_cons_left_iff.mp lines
      rw [outdentsTo_solid solid outdents] at isSplit
      exact head?_of_splitOn isSplit

theorem Settles.startsIn {token final : Token} {text : List Char} (settles : token.Settles final)
    (starts : token.StartsIn text) : final.StartsIn text := by
  obtain ⟨c, there, first, solid⟩ := starts
  refine ⟨c, by rwa [settles.idx], ?_, solid⟩
  rcases settles.kind with same | ⟨isKeyword, -, isElement⟩
  · rw [spelling, List.head?_append] at first ⊢
    rw [same]
    cases opens : token.kind.opening.head? with
    | some d =>
        rw [opens] at first
        exact first
    | none =>
        rw [opens] at first
        exact settles.head?_value solid first
  · rw [spelling, isKeyword] at first
    rw [spelling, isElement]
    exact settles.head?_value solid first

end Token

namespace Scanner

variable {s stop : Scanner} {text : List Char} {tokens : List Token}

/-- A token starts where the white space before it ends. -/
theorem StandsIn.token_startsIn (stands : s.StandsIn text) {lexeme : Lexeme}
    (fits : lexeme.Fits s.rest) (solid : ∀ c, s.rest.head? = some c → Text.isBlank c = false) :
    (s.token lexeme.kind (String.ofList lexeme.text)).StartsIn text := by
  obtain ⟨further, rest⟩ := fits.front
  obtain ⟨c, first⟩ : ∃ c, (lexeme.kind.opening ++ lexeme.text).head? = some c := by
    cases empty : (lexeme.kind.opening ++ lexeme.text).head? with
    | some c => exact ⟨c, rfl⟩
    | none =>
        exact absurd (List.append_eq_nil_iff.mp (List.head?_eq_none_iff.mp empty)).2 fits.nonempty
  have here : s.rest.head? = some c := by
    rw [← rest, List.head?_append, first]
    rfl
  refine ⟨c, ?_, ?_, solid c here⟩
  · rw [List.head?_eq_getElem?, ← stands.drop_idx, List.getElem?_drop] at here
    exact here
  · rw [Token.spelling, token, String.toList_ofList]
    exact first

theorem Reads.startsIn (reads : Reads s tokens stop) (stands : s.StandsIn text) :
    ∀ token ∈ tokens, token.StartsIn text := by
  induction reads with
  | done => exact fun token member => absurd member List.not_mem_nil
  | @next s stop lexeme tokens found later ih =>
      have here := stands.skipBlanks
      have fits := Lexeme.find?_fits found
      refine List.forall_mem_cons.mpr ⟨?_, ih (here.forward _ fits.extent_le)⟩
      exact here.token_startsIn fits s.skipBlanks_solid

end Scanner

namespace Token

/-- Arranging makes no token out of nothing, also where it fails. -/
theorem mem_arrangeFrom (ahead : List Token) : ∀ (done : List Token),
    ∀ final ∈ (arrangeFrom done ahead).tokens,
      final ∈ done ∨ ∃ token ∈ ahead, final = token ∨ token.Settles final := by
  induction ahead with
  | nil => exact fun done final member => Or.inl member
  | cons token ahead ih =>
      intro done
      have settles := settles_settled done token
      -- What the tokens reached so far hold, and what the rest adds to them.
      have onward (reached : List Token) (grown : ∀ each ∈ reached, each ∈ done ∨
          each = settled done token) : ∀ final ∈ (arrangeFrom reached ahead).tokens,
          final ∈ done ∨ ∃ each ∈ token :: ahead, final = each ∨ each.Settles final := by
        intro final member
        rcases ih reached final member with present | ⟨each, isAhead, becomes⟩
        · rcases grown final present with earlier | rfl
          · exact Or.inl earlier
          · exact Or.inr ⟨token, by simp, Or.inr settles⟩
        · exact Or.inr ⟨each, by simp [isAhead], becomes⟩
      have stays : ∀ each ∈ done ++ [settled done token], each ∈ done ∨
          each = settled done token := by simp
      rw [arrangeFrom_cons]
      split
      · rename_i moves
        simp only [Bool.and_eq_true, decide_eq_true_eq] at moves
        cases lifts : liftAt (done ++ [settled done token]) done.length with
        | error error =>
            intro final member
            simp only [List.append_assoc, List.mem_append, List.mem_singleton] at member
            rcases member with earlier | rfl | isAhead
            · exact Or.inl earlier
            · exact Or.inr ⟨token, by simp, Or.inr settles⟩
            · exact Or.inr ⟨final, by simp [isAhead], Or.inl rfl⟩
        | ok lifted =>
            refine onward lifted ?_
            rcases liftAt_ok moves.2 lifts with
              rfl | ⟨front, keyword, crossed, whole, -, -, -, -, rfl⟩
            · exact stays
            · intro each member
              have isDone : each ∈ done ↔ each ∈ front ∨ each = keyword ∨ each ∈ crossed := by
                rw [whole, List.mem_append, List.mem_cons]
              rw [isDone]
              simp only [List.mem_append, List.mem_cons] at member
              tauto
      · exact onward _ stays

/-- Every token of a text, moved or not, starts in the joined text at its index. -/
theorem tokenize_startsIn (text : String) :
    ∀ token ∈ (tokenize text).tokens, token.StartsIn (Scanner.joinContinued text.toList) := by
  intro final member
  have stands := Scanner.standsIn_ofText text
  have reads := (Scanner.scan_reads stands).2
  rw [tokenize_eq] at member
  rcases mem_arrangeFrom _ [] final member with earlier | ⟨token, isRead, becomes⟩
  · cases earlier
  · have starts := reads.startsIn stands token isRead
    rcases becomes with rfl | settles
    · exact starts
    · exact settles.startsIn starts

/-- The first character of the token stands at `place` of the text: it is kept when lines are
joined, and it has as many kept characters before it as the index of the token says. -/
structure StandsAt (token : Token) (text : List Char) (place : Nat) : Prop where
  first : ∃ c, text[place]? = some c ∧ token.spelling.head? = some c
  kept : ¬Text.Continues text place
  counts : place = token.idx + Text.continued text place

theorem standsAt_of_startsIn {token : Token} {text : List Char}
    (starts : token.StartsIn (Scanner.joinContinued text)) :
    ∃ place, token.StandsAt text place := by
  obtain ⟨c, there, first, -⟩ := starts
  obtain ⟨place, present, kept, counts⟩ := Text.joinContinued_getElem? text token.idx c there
  exact ⟨place, ⟨c, present, first⟩, kept, counts⟩

/-- The index leads to the row and the column of the token exactly if it is not too small. -/
theorem StandsAt.sameSpot_iff {token : Token} {text : List Char} {place : Nat}
    (stands : token.StandsAt text place) :
    Text.SameSpot text token.idx place ↔ Text.continued text place = 0 := by
  have counts := stands.counts
  obtain ⟨c, present, -⟩ := stands.first
  have inside : place < text.length := (List.getElem?_eq_some_iff.mp present).1
  constructor
  · intro same
    have isPlace := same.eq (by omega) (by omega)
    omega
  · intro none
    rw [none, Nat.add_zero] at counts
    rw [← counts]
    exact ⟨rfl, rfl⟩

end Token

/-- The notice is about an argument, not about the form of a file. -/
def Notice.IsRemark (notice : Notice) : Prop :=
  ∃ function argument, notice = .unknownArgument function argument

theorem Function.setTypes_remarks (function : String) (types : List (String × String)) :
    ∀ (args : List Argument), ∀ notice ∈ (setTypes function types args).2, notice.IsRemark := by
  induction types with
  | nil => exact fun _ notice member => absurd member List.not_mem_nil
  | cons typing later ih =>
      obtain ⟨name, type⟩ := typing
      intro args
      rw [setTypes]
      split
      · exact ih _
      · exact List.forall_mem_cons.mpr ⟨⟨function, name, rfl⟩, ih args⟩

theorem Function.print_remarks (f : Function) : ∀ notice ∈ f.print.notices, notice.IsRemark := by
  simp only [print, settle]
  exact setTypes_remarks _ _ _

namespace Element

variable {print : Element → Printed Element}

theorem placeMember_remarks
    (remarks : ∀ element, ∀ notice ∈ (print element).notices, notice.IsRemark)
    (separate isPublic : Bool) (context : Context) (element current : Element) :
    ∀ notice ∈ (placeMember print separate isPublic context element current).notices,
      notice.IsRemark := by
  intro notice member
  rw [placeMember] at member
  rcases List.mem_append.mp member with looked | written
  · split at looked
    · cases looked
    · split at looked
      · exact remarks _ notice looked
      · cases looked
  · exact remarks _ notice written

theorem placeElements_remarks
    (remarks : ∀ element, ∀ notice ∈ (print element).notices, notice.IsRemark)
    (separate : Bool) (elements : List Element) : ∀ (context : Context),
    ∀ notice ∈ (placeElements print separate context elements).notices, notice.IsRemark := by
  induction elements with
  | nil => exact fun _ notice member => absurd member List.not_mem_nil
  | cons element later ih =>
      intro context notice member
      rw [placeElements] at member
      rcases List.mem_append.mp member with here | further
      · rw [placeElement] at here
        have placed := placeMember_remarks remarks separate
        split at here
        · simp only [List.mem_append] at here
          rcases here with (first | middle) | last
          · exact remarks _ notice first
          · exact placed _ _ _ _ notice middle
          · exact remarks _ notice last
        · rcases List.mem_append.mp here with first | middle
          · exact remarks _ notice first
          · exact placed _ _ _ _ notice middle
      · exact ih _ notice further

theorem printUpTo_remarks (n : Nat) : ∀ element,
    ∀ notice ∈ (printUpTo n element).notices, notice.IsRemark := by
  induction n with
  | zero =>
      intro element
      cases element with
      | function f => simpa only [printUpTo] using f.print_remarks
      | _ => simp [printUpTo]
  | succ n ih =>
      intro element
      cases element with
      | function f => simpa only [printUpTo] using f.print_remarks
      | inlineType info elements => exact placeElements_remarks ih _ _ _
      | _ => simp [printUpTo]

end Element

theorem Document.print_remarks (doc : Document) :
    ∀ notice ∈ doc.print.notices, notice.IsRemark := by
  intro notice member
  rw [print] at member
  split at member
  · cases member
  · refine Element.placeElements_remarks (fun element => ?_) _ _ _ notice member
    exact Element.printUpTo_remarks _ element

namespace Filter

theorem write_remarks (shown : String) (doc : Document) :
    ∀ notice ∈ (write shown doc).notices, notice.IsRemark := by
  rw [write]
  split <;> exact doc.print_remarks

/-- The notice tells row and excerpt of the index of a token of the text. -/
def Locates (text : String) (row : Nat) (reason excerpt : String) : Prop :=
  ∃ error token, token ∈ (Token.tokenize text).tokens ∧ ReadError.token? error = some token ∧
    reason = error.message ∧ row = Text.row text.toList token.idx ∧
    excerpt = String.ofList (Text.excerptAt text.toList token.idx)

/-- An error about a token is about one that was given. -/
theorem mem_of_read_error {doc : Document} {nested : Bool} {tokens : List Token}
    {error : ReadError} {token : Token} (failed : (doc.read nested tokens).error = some error)
    (about : error.token? = some token) : token ∈ tokens := by
  rcases doc.read_meets nested tokens with ⟨-, noWord⟩ | ⟨-, meets, -⟩
  · rw [failed] at noWord
    obtain rfl := Option.some.inj noWord
    cases about
  · rw [Document.Parsed.Meets, failed] at meets
    rcases meets with ⟨rfl, -⟩ | ⟨found, isFound, passes⟩
    · cases about
    · rw [about] at isFound
      obtain rfl := Option.some.inj isFound
      obtain ⟨place, there, -⟩ := passes.past
      exact List.mem_of_getElem? there

theorem document_locates (disk : Disk) (options : Options) (row : Nat) (reason excerpt : String)
    (reported : Notice.fault row reason excerpt ∈ (document disk options).notices) :
    ∃ text, readText disk options.file = .ok text ∧ Locates text row reason excerpt := by
  rw [document] at reported
  split at reported
  · cases reported
  · rename_i text isText
    refine ⟨text, isText, ?_⟩
    dsimp only at reported
    split at reported
    · cases reported
    · split at reported
      · cases reported
      · cases reported
      · cases reported
      · rw [readAndWrite] at reported
        split at reported
        · obtain ⟨_, _, other⟩ := write_remarks _ _ _ reported
          cases other
        · rename_i error failed
          split at reported
          · cases reported
          · rename_i token about
            simp only [complain, List.mem_cons, List.not_mem_nil, or_false, reduceCtorEq,
              false_or, Notice.fault.injEq] at reported
            obtain ⟨isRow, isReason, isExcerpt⟩ := reported
            exact ⟨error, token, mem_of_read_error failed about, about, isReason, isRow, isExcerpt⟩

/-- Every token stands at exactly one place of the text that it was read from, and its index is too
small by the number of lines that are continued before that place. So the index leads to the row
and the column of the token exactly if there is no such line. Whatever fault a run reports, its
row and its excerpt are those of the index of such a token. -/
theorem run_places (disk : Disk) (args : List String) :
    (∀ text : String, ∀ token ∈ (Token.tokenize text).tokens,
      ∃ place, token.StandsAt text.toList place ∧
        (∀ other, token.StandsAt text.toList other → other = place) ∧
        (Text.SameSpot text.toList token.idx place ↔ Text.continued text.toList place = 0)) ∧
      ∀ row reason excerpt, .fault row reason excerpt ∈ (run disk args).notices →
        ∃ options text, CommandLine.parse args = .document options ∧
          readText disk options.file = .ok text ∧ Locates text row reason excerpt := by
  constructor
  · intro text token member
    obtain ⟨place, stands⟩ := Token.standsAt_of_startsIn (Token.tokenize_startsIn text token member)
    refine ⟨place, stands, fun other standsToo => ?_, stands.sameSpot_iff⟩
    exact Text.kept_unique standsToo.kept stands.kept standsToo.counts stands.counts
  · intro row reason excerpt reported
    rw [run] at reported
    split at reported
    · rename_i options parsed
      obtain ⟨text, isText, locates⟩ := document_locates disk options row reason excerpt reported
      exact ⟨options, text, parsed, isText, locates⟩
    all_goals cases reported

/-- A property without a name, in a file without continued lines. -/
theorem run_places_unnamed :
    let text := "Item \x7b\n    property int\n\x7d\n"
    let tree : Tree := ⟨[(["A.qml"], text.toUTF8.toList)], []⟩
    let closing : Token := ⟨.blockEnd, "\x7d", 24, 0⟩
    let reason := "Expected token of type 'element', got 'block_end' instead"
    closing ∈ (Token.tokenize text).tokens ∧
      (∃ place, closing.StandsAt text.toList place ∧
        (∀ other, closing.StandsAt text.toList other → other = place) ∧
        (Text.SameSpot text.toList closing.idx place ↔ Text.continued text.toList place = 0)) ∧
      .fault 3 reason "\n\x7d\n^" ∈ (run tree.disk ["A.qml"]).notices ∧
      ∃ options text, CommandLine.parse ["A.qml"] = .document options ∧
        readText tree.disk options.file = .ok text ∧ Locates text 3 reason "\n\x7d\n^" := by
  intro text tree closing reason
  have isToken : closing ∈ (Token.tokenize text).tokens := by decide +kernel
  have reported : .fault 3 reason "\n\x7d\n^" ∈ (run tree.disk ["A.qml"]).notices := by
    decide +kernel
  obtain ⟨places, located⟩ := run_places tree.disk ["A.qml"]
  exact ⟨isToken, places text closing isToken, reported, located 3 reason _ reported⟩

/-- Behind a continued line the same mistake is reported one line too high. -/
theorem run_places_continued :
    let text := "Item \x7b\n    property string s: \"a\\\nb\"\n    property int\n\x7d\n"
    let tree : Tree := ⟨[(["A.qml"], text.toUTF8.toList)], []⟩
    let closing : Token := ⟨.blockEnd, "\x7d", 53, 0⟩
    closing ∈ (Token.tokenize text).tokens ∧ closing.StandsAt text.toList 54 ∧
      ¬Text.SameSpot text.toList closing.idx 54 ∧
      (Text.row text.toList 54, Text.column text.toList 54) = (5, 1) ∧
      (run tree.disk ["A.qml"]).notices = [.unreadable "A.qml",
        .fault 4 "Expected token of type 'element', got 'block_end' instead"
          "\n    property int\n----------------^"] := by
  refine ⟨by decide +kernel, ⟨⟨'\x7d', by decide +kernel, rfl⟩, ?_, ?_⟩, ?_, ?_, ?_⟩ <;>
    decide +kernel

end Filter

end QmlDoc
