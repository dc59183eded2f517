import QmlDoc.Proofs.TokenPlaces
import QmlDoc.Proofs.TypeMarks

set_option autoImplicit false

namespace QmlDoc

namespace Text

theorem Solid.reverse {word : List Char} (solid : Solid word) : Solid word.reverse :=
  ⟨by simpa using solid.1, fun c member => solid.2 c (List.mem_reverse.mp member)⟩

theorem trim_parts (text : List Char) : ∃ lead trail, text = lead ++ (trim text ++ trail) ∧
    (∀ c ∈ lead, isBlank c = true) ∧ ∀ c ∈ trail, isBlank c = true := by
  refine ⟨text.takeWhile isBlank, ((text.dropWhile isBlank).reverse.takeWhile isBlank).reverse,
    ?_, fun c => List.mem_takeWhile_imp, ?_⟩
  · rw [trim, ← List.reverse_append, List.takeWhile_append_dropWhile, List.reverse_reverse,
      List.takeWhile_append_dropWhile]
  · intro c member
    rw [List.mem_reverse] at member
    exact List.mem_takeWhile_imp member

/-- Trimming leaves a word exactly where there is white space around it and nothing else. -/
theorem trim_eq_solid_iff {word : List Char} (solid : Solid word) (text : List Char) :
    trim text = word ↔ ∃ lead trail, text = lead ++ (word ++ trail) ∧
      (∀ c ∈ lead, isBlank c = true) ∧ ∀ c ∈ trail, isBlank c = true := by
  constructor
  · rintro rfl
    exact trim_parts text
  · rintro ⟨lead, trail, rfl, leads, trails⟩
    have trailsBack : ∀ c ∈ trail.reverse, isBlank c = true :=
      fun c member => trails c (List.mem_reverse.mp member)
    have back := solid.reverse.stops []
    rw [List.append_nil] at back
    rw [trim, List.dropWhile_append_of_pos leads, dropWhile_of_stops (solid.stops trail),
      List.reverse_append, List.dropWhile_append_of_pos trailsBack, dropWhile_of_stops back,
      List.reverse_reverse]

/-- If trimming leaves a single word, then it is the first one, and white space follows. -/
theorem trim_front_eq_iff {name gap word more : List Char} (isName : Solid name)
    (blank : ∀ c ∈ gap, isBlank c = true) (solid : Solid word) (ends : EndsWord more) :
    trim (gap ++ (word ++ more)) = name ↔ word = name ∧ ∀ c ∈ more, isBlank c = true := by
  rw [trim_eq_solid_iff isName]
  constructor
  · rintro ⟨lead, trail, same, leads, trails⟩
    obtain ⟨-, behind⟩ := run_unique blank leads (solid.stops more) (isName.stops trail) same
    have inWord {text : List Char} (isText : Solid text) :
        ∀ c ∈ text, (!isBlank c) = true := fun c member => by rw [isText.2 c member]; rfl
    obtain ⟨isFirst, rfl⟩ := run_unique (inWord solid) (inWord isName)
      (ends.stops not_isBlank_of_isBlank)
      ((endsWord_of_blank trails).stops not_isBlank_of_isBlank) behind
    exact ⟨isFirst, trails⟩
  · rintro ⟨rfl, trails⟩
    exact ⟨gap, more, rfl, blank, trails⟩

/-- A text that does not start with white space starts with a word. -/
theorem exists_word {line : List Char} (nonempty : line ≠ [])
    (starts : ∀ c, line.head? = some c → isBlank c = false) :
    ∃ word tail, line = word ++ tail ∧ Solid word ∧ EndsWord tail := by
  obtain ⟨c, rest, rfl⟩ := List.exists_cons_of_ne_nil nonempty
  have first := starts c rfl
  refine ⟨(c :: rest).takeWhile (!isBlank ·), (c :: rest).dropWhile (!isBlank ·),
    List.takeWhile_append_dropWhile.symm, ⟨by simp [first], fun d member => ?_⟩, fun d front => ?_⟩
  · simpa using List.mem_takeWhile_imp member
  · have stops := List.head?_dropWhile_not (!isBlank ·) (c :: rest)
    rw [front] at stops
    simpa using stops

end Text

/-- The value of a line with `word` at its front: white space follows, and then the rest of a
line. -/
structure Directs (word value gap line : List Char) : Prop where
  parts : value = word ++ (gap ++ line)
  spaced : gap ≠ []
  blank : ∀ c ∈ gap, Text.isBlank c = true
  starts : ∀ c, line.head? = some c → Text.isBlank c = false
  inLine : '\n' ∉ line

/-- The form of a header line by its kind. Only a pragma has to have something behind its word. -/
def Token.Kind.HeaderForm (kind : Token.Kind) (value : List Char) : Prop :=
  match kind with
  | .importLine => ∃ gap line, Directs "import".toList value gap line
  | .pragmaLine => ∃ gap line, Directs "pragma".toList value gap line ∧ line ≠ []
  | _ => True

namespace Lexeme

theorem directive_directs {word text value : List Char} {starts : List Char → Bool}
    (found : directive word starts text = some value) :
    ∃ gap line, Directs word value gap line ∧ (starts [] = false → line ≠ []) := by
  unfold directive at found
  split at found
  · cases found
  · rename_i after parted
    obtain ⟨fits, ⟨⟩⟩ := Option.ite_none_right_eq_some.mp found
    rw [Bool.and_eq_true] at fits
    have solid : ∀ c, (after.dropWhile Text.isBlank).head? = some c → Text.isBlank c = false := by
      intro c first
      have stops := List.head?_dropWhile_not Text.isBlank after
      rw [first] at stops
      simpa using stops
    refine ⟨after.takeWhile Text.isBlank, (after.dropWhile Text.isBlank).takeWhile (· ≠ '\n'),
      ⟨List.append_assoc _ _ _, ?_, fun c => List.mem_takeWhile_imp, ?_, ?_⟩, ?_⟩
    · simpa [Text.spanBlank] using fits.1
    · intro c first
      rw [List.head?_takeWhile] at first
      exact solid c (Option.eq_some_of_filter_eq_some first)
    · intro isLine
      simpa using List.mem_takeWhile_imp isLine
    · intro needsMore none
      have started := fits.2
      change starts (after.dropWhile Text.isBlank) = true at started
      cases behind : after.dropWhile Text.isBlank with
      | nil =>
          rw [behind, needsMore] at started
          cases started
      | cons c rest =>
          have first : Text.isBlank c = false := solid c (by rw [behind]; rfl)
          have inLine : c ≠ '\n' := by
            rintro rfl
            cases first
          rw [behind, List.takeWhile_cons_of_pos (by simpa using inLine)] at none
          cases none

theorem plain_directs (kind : Token.Kind) (read : List Char → Option (List Char))
    (directs : ∀ text value, read text = some value → kind.HeaderForm value)
    (previous : Option Char) (text : List Char) (lexeme : Lexeme)
    (found : plain kind read previous text = some lexeme) :
    lexeme.kind.HeaderForm lexeme.text := by
  obtain ⟨value, isRead, rfl⟩ := Option.map_eq_some_iff.mp found
  exact directs text value isRead

theorem brace_kind {kind : Token.Kind} {c : Char} {previous : Option Char} {text : List Char}
    {lexeme : Lexeme} (found : brace kind c previous text = some lexeme) : lexeme.kind = kind := by
  unfold brace at found
  split at found
  · obtain ⟨-, ⟨⟩⟩ := Option.ite_none_right_eq_some.mp found
    rfl
  · cases found

theorem inlineComponent_kind {previous : Option Char} {text : List Char} {lexeme : Lexeme}
    (found : inlineComponent previous text = some lexeme) : lexeme.kind = .inlineComponent := by
  unfold inlineComponent at found
  split at found
  · cases found
  · obtain ⟨-, ⟨⟩⟩ := Option.ite_none_left_eq_some.mp found
    rfl

theorem directs_of_mem : ∀ rule ∈ lineRules ++ rules, ∀ previous text lexeme,
    rule previous text = some lexeme → lexeme.kind.HeaderForm lexeme.text := by
  have other (kind : Token.Kind) (read : List Char → Option (List Char))
      (free : ∀ value, kind.HeaderForm value) := plain_directs kind read fun _ value _ => free value
  have isBrace (kind : Token.Kind) (c : Char) (free : ∀ value, kind.HeaderForm value)
      (previous : Option Char) (text : List Char) (lexeme : Lexeme)
      (found : brace kind c previous text = some lexeme) : lexeme.kind.HeaderForm lexeme.text := by
    rw [brace_kind found]
    exact free lexeme.text
  simp only [lineRules, rules, List.cons_append, List.nil_append, List.forall_mem_cons]
  refine ⟨fun previous text lexeme found => ?_, other _ _ fun _ => trivial,
    other _ _ fun _ => trivial, other _ _ fun _ => trivial, other _ _ fun _ => trivial,
    other _ _ fun _ => trivial, other _ _ fun _ => trivial, other _ _ fun _ => trivial,
    isBrace _ _ fun _ => trivial, isBrace _ _ fun _ => trivial, other _ _ fun _ => trivial,
    other _ _ fun _ => trivial, plain_directs _ _ fun text value found => ?_,
    plain_directs _ _ fun text value found => ?_, other _ _ fun _ => trivial,
    other _ _ fun _ => trivial, other _ _ fun _ => trivial, other _ _ fun _ => trivial,
    other _ _ fun _ => trivial, List.forall_mem_nil _⟩
  · rw [inlineComponent_kind found]
    trivial
  · obtain ⟨gap, line, directs, -⟩ := directive_directs found
    exact ⟨gap, line, directs⟩
  · obtain ⟨gap, line, directs, more⟩ := directive_directs found
    exact ⟨gap, line, directs, more rfl⟩

end Lexeme

theorem Scanner.Reads.directs {s stop : Scanner} {tokens : List Token}
    (reads : Reads s tokens stop) :
    ∀ token ∈ tokens, token.kind.HeaderForm token.value.toList := by
  induction reads with
  | done => exact fun token member => absurd member List.not_mem_nil
  | next found _ ih =>
      obtain ⟨rule, tried, fits⟩ := Lexeme.find?_rule found
      refine List.forall_mem_cons.mpr ⟨?_, ih⟩
      rw [Scanner.token, String.toList_ofList]
      exact Lexeme.directs_of_mem rule tried _ _ _ fits

namespace Token

/-- Header lines are not changed when tokens are arranged. -/
theorem Settles.directs {token final : Token} (settles : token.Settles final)
    (directs : token.kind.HeaderForm token.value.toList) :
    final.kind.HeaderForm final.value.toList := by
  rcases settles.kind with same | ⟨-, -, isElement⟩
  · rw [same]
    cases isComment : token.isComment with
    | false => rwa [settles.value (Or.inl isComment)]
    | true =>
        rw [Token.isComment, Kind.isComment.eq_def] at isComment
        split at isComment
        · rename_i isKind
          rw [isKind]
          trivial
        · rename_i isKind
          rw [isKind]
          trivial
        · cases isComment
  · rw [isElement]
    trivial

theorem tokenize_directs (text : String) :
    ∀ token ∈ (tokenize text).tokens, token.kind.HeaderForm token.value.toList := by
  intro final member
  have reads := (Scanner.scan_reads (Scanner.standsIn_ofText text)).2
  rw [tokenize_eq] at member
  rcases mem_arrangeFrom _ [] final member with earlier | ⟨token, isRead, becomes⟩
  · cases earlier
  · have directs := reads.directs token isRead
    rcases becomes with rfl | settles
    · exact directs
    · exact settles.directs directs

end Token

theorem Directs.words_eq {word value gap line : List Char} (directs : Directs word value gap line)
    (solid : Text.Solid word) : Text.words value = word :: Text.words line := by
  have ends : Text.EndsWord (gap ++ line) := by
    obtain ⟨blank, gap, rfl⟩ := List.exists_cons_of_ne_nil directs.spaced
    exact Text.endsWord_cons (directs.blank blank List.mem_cons_self) _
  rw [directs.parts, Text.words_front word _ solid ends, Text.words_gap gap line directs.blank]

def IsSingleton (word : List Char) : Prop :=
  word.map Char.toLower = "singleton".toList

instance (word : List Char) : Decidable (IsSingleton word) :=
  inferInstanceAs (Decidable (_ = _))

theorem IsSingleton.solid {word : List Char} (isSingleton : IsSingleton word) :
    Text.Solid word := by
  constructor
  · rintro rfl
    cases isSingleton
  · intro c member
    by_contra blank
    rw [Bool.not_eq_false] at blank
    apply Text.forall_blank (P := fun c => c.toLower ∉ "singleton".toList) (by decide +kernel) blank
    rw [← isSingleton]
    exact List.mem_map_of_mem member

/-- White space around the word does not matter, but nothing else may stand there. -/
theorem isSingleton_trim_iff {gap word more : List Char}
    (blank : ∀ c ∈ gap, Text.isBlank c = true) (solid : Text.Solid word)
    (ends : Text.EndsWord more) :
    IsSingleton (Text.trim (gap ++ (word ++ more))) ↔
      IsSingleton word ∧ ∀ c ∈ more, Text.isBlank c = true := by
  constructor
  · intro isSingleton
    obtain ⟨isWord, trails⟩ :=
      (Text.trim_front_eq_iff isSingleton.solid blank solid ends).mp rfl
    rw [← isWord] at isSingleton
    exact ⟨isSingleton, trails⟩
  · rintro ⟨isSingleton, trails⟩
    rwa [(Text.trim_front_eq_iff solid blank solid ends).mpr ⟨rfl, trails⟩]

theorem not_isSingleton_trim {text : List Char} (blank : ∀ c ∈ text, Text.isBlank c = true) :
    ¬IsSingleton (Text.trim text) := by
  intro isSingleton
  obtain ⟨lead, trail, parts, -, -⟩ := Text.trim_parts text
  obtain ⟨c, rest, front⟩ := List.exists_cons_of_ne_nil isSingleton.solid.1
  have member : c ∈ Text.trim text := by simp [front]
  have isBlank := blank c (by rw [parts]; simp [member])
  rw [isSingleton.solid.2 c member] at isBlank
  cases isBlank

namespace Document

/-- An import is refused if nothing stands behind its word, or if an alias is missing in one that
is not quoted. -/
theorem addImport_directs (doc : Document) {value : String} {gap line : List Char}
    (directs : Directs "import".toList value.toList gap line) (error : ReadError) :
    doc.addImport value = .error error ↔ error = .noWord ∧
      (line = [] ∨ line.head? ≠ some '"' ∧ EndsInAs ((Text.words line).map String.ofList)) := by
  have later (names : List String) : EndsInAs ("import" :: names) ↔ EndsInAs names := by
    simp [endsInAs_cons]
  rw [addImport_eq_error_iff, ImportLacksWord, directs.words_eq (by decide), List.map_cons,
    String.ofList_toList, later]
  refine and_congr_right fun _ => ?_
  by_cases none : line = []
  · simp [none, Text.words]
  · obtain ⟨word, tail, rfl, solid, ends⟩ := Text.exists_word none directs.starts
    obtain ⟨c, rest, rfl⟩ := List.exists_cons_of_ne_nil solid.1
    have quoted : Text.startsWith (String.ofList (c :: rest)) "\"" = false ↔ c ≠ '"' := by
      rw [Text.startsWith, String.toList_ofList, ne_comm]
      simp [List.isPrefixOf]
    rw [Text.words_front _ tail solid ends, List.map_cons]
    generalize String.ofList (c :: rest) = name at quoted
    have enough : ¬("import" :: name :: (Text.words tail).map String.ofList).length < 2 := by simp
    simp only [enough, false_or, List.getElem?_cons_succ, List.getElem?_cons_zero,
      Option.some.injEq, exists_eq_left', quoted]
    simp

/-- The document with the remark that its type exists once, if the pragma says so. -/
def remark (doc : Document) (name : List Char) : Document :=
  if IsSingleton name then doc.addHeaderComment singletonComment else doc

theorem remark_eq_iff (doc : Document) (name other : List Char) :
    doc.remark name = doc.remark other ↔ (IsSingleton name ↔ IsSingleton other) := by
  have changes : doc.addHeaderComment singletonComment ≠ doc := by
    intro same
    have longer := congrArg (fun each => each.info.headerComments.length) same
    simp [addHeaderComment] at longer
  rw [remark, remark]
  by_cases isName : IsSingleton name <;> by_cases isOther : IsSingleton other <;>
    simp [isName, isOther, changes, changes.symm]

/-- The name of a pragma is looked for between the first space and the next one. -/
theorem addPragma_split (doc : Document) {value : String} {front behind : List Char}
    (parts : value.toList = front ++ ' ' :: behind) (first : ' ' ∉ front) :
    doc.addPragma value = .ok (doc.remark (Text.trim (behind.takeWhile (· ≠ ' ')))) := by
  obtain ⟨later, pieces⟩ := Text.splitOn_front ' ' behind
  rw [addPragma, parts, List.splitOn_append_cons_self_of_not_mem first, pieces, remark]
  exact (apply_ite Except.ok _ _ _).symm

end Document

/-- Whether the spaces of a pragma lead to its second word, as far as that matters. With one space
before the word they do, if only white space stands behind it up to the next space. With more
spaces they lead to nothing, and with none to something behind the word. -/
def SpacesLead (gap word tail : List Char) : Prop :=
  match gap.count ' ' with
  | 0 => ∃ behind, tail.dropWhile (· ≠ ' ') = ' ' :: behind ∧
      (IsSingleton (Text.trim (behind.takeWhile (· ≠ ' '))) ↔ IsSingleton word)
  | 1 => IsSingleton word → ∀ c ∈ tail.takeWhile (· ≠ ' '), Text.isBlank c = true
  | _ => ¬IsSingleton word

theorem spacesLead_early {front back word tail : List Char} (first : ' ' ∉ front)
    (blank : ∀ c ∈ back, Text.isBlank c = true) (solid : Text.Solid word)
    (ends : Text.EndsWord tail) :
    SpacesLead (front ++ ' ' :: back) word tail ↔
      (IsSingleton (Text.trim ((back ++ (word ++ tail)).takeWhile (· ≠ ' '))) ↔
        IsSingleton word) := by
  rw [SpacesLead, List.count_append, List.count_cons_self, List.count_eq_zero.mpr first,
    Nat.zero_add]
  by_cases again : ' ' ∈ back
  · -- Between two spaces of the gap there is white space only.
    obtain ⟨between, further, rfl, second⟩ := List.eq_append_cons_of_mem again
    have nothing : ¬IsSingleton (Text.trim between) :=
      not_isSingleton_trim fun c member => blank c (by simp [member])
    rw [List.append_assoc, Text.takeWhile_ne_append ' ' between _ second, List.cons_append,
      List.takeWhile_cons_of_neg (by simp), List.append_nil, List.count_append,
      List.count_cons_self, List.count_eq_zero.mpr second, Nat.zero_add]
    tauto
  · have inWord : ' ' ∉ word := solid.not_mem (by decide)
    have endsShort : Text.EndsWord (tail.takeWhile (· ≠ ' ')) := by
      intro c front
      rw [List.head?_takeWhile] at front
      exact ends c (Option.eq_some_of_filter_eq_some front)
    rw [List.count_eq_zero.mpr again, Text.takeWhile_ne_append ' ' back _ again,
      Text.takeWhile_ne_append ' ' word _ inWord, isSingleton_trim_iff blank solid endsShort]
    tauto

theorem spacesLead_late {gap word front behind : List Char} (absent : ' ' ∉ gap)
    (first : ' ' ∉ front) :
    SpacesLead gap word (front ++ ' ' :: behind) ↔
      (IsSingleton (Text.trim (behind.takeWhile (· ≠ ' '))) ↔ IsSingleton word) := by
  have found : (front ++ ' ' :: behind).dropWhile (· ≠ ' ') = ' ' :: behind := by
    rw [List.dropWhile_append_of_pos (Text.ne_of_absent first),
      List.dropWhile_cons_of_neg (by simp)]
  rw [SpacesLead, List.count_eq_zero.mpr absent, found]
  simp

theorem not_spacesLead {gap word tail : List Char} (early : ' ' ∉ gap) (late : ' ' ∉ tail) :
    ¬SpacesLead gap word tail := by
  have passed : tail.dropWhile (· ≠ ' ') = [] :=
    List.dropWhile_eq_nil_iff.mpr (Text.ne_of_absent late)
  rw [SpacesLead, List.count_eq_zero.mpr early, passed]
  simp

namespace Document

theorem addPragma_lacks (doc : Document) {value : String} {gap word tail : List Char}
    (directs : Directs "pragma".toList value.toList gap (word ++ tail)) (solid : Text.Solid word)
    (error : ReadError) :
    doc.addPragma value = .error error ↔ error = .noWord ∧ ' ' ∉ gap ∧ ' ' ∉ tail := by
  have inWord : ' ' ∉ word := solid.not_mem (by decide)
  rw [addPragma_eq_error_iff, PragmaLacksWord, directs.parts]
  simp [inWord]

/-- A pragma means what its second word says exactly if its spaces lead there. -/
theorem addPragma_directs (doc : Document) {value : String} {gap word tail : List Char}
    (directs : Directs "pragma".toList value.toList gap (word ++ tail)) (solid : Text.Solid word)
    (ends : Text.EndsWord tail) :
    doc.addPragma value = .ok (doc.remark word) ↔ SpacesLead gap word tail := by
  have inWord : ' ' ∉ word := solid.not_mem (by decide)
  by_cases early : ' ' ∈ gap
  · obtain ⟨front, back, rfl, first⟩ := List.eq_append_cons_of_mem early
    have parts : value.toList = ("pragma".toList ++ front) ++ ' ' :: (back ++ (word ++ tail)) := by
      rw [directs.parts]
      simp
    rw [doc.addPragma_split parts (by simp [first]), Except.ok.injEq, remark_eq_iff,
      spacesLead_early first (fun c member => directs.blank c (by simp [member])) solid ends]
  · by_cases late : ' ' ∈ tail
    · obtain ⟨front, behind, rfl, first⟩ := List.eq_append_cons_of_mem late
      have parts : value.toList =
          ("pragma".toList ++ (gap ++ (word ++ front))) ++ ' ' :: behind := by
        rw [directs.parts]
        simp
      rw [doc.addPragma_split parts (by simp [early, inWord, first]), Except.ok.injEq,
        remark_eq_iff, spacesLead_late early first]
    · have failed := (doc.addPragma_lacks directs solid .noWord).mpr ⟨rfl, early, late⟩
      rw [failed]
      exact iff_of_false (fun same => nomatch same) (not_spacesLead early late)

theorem addPragma_ok {doc next : Document} {value : String}
    (added : doc.addPragma value = .ok next) :
    next = doc ∨ next = doc.addHeaderComment singletonComment := by
  rw [addPragma] at added
  split at added
  · split at added
    · exact Or.inr (Except.ok.inj added).symm
    · exact Or.inl (Except.ok.inj added).symm
  · cases added

/-- What becomes of the imports and pragmas of a text. An import is refused exactly if nothing
stands behind its word, or if it has no quotes and its only `as` is its last word. A pragma is
refused exactly if it has no space. Otherwise it leaves the document as it is or adds the remark,
and it does what its second word says exactly if its spaces lead to that word. -/
theorem add_headerLines (text : String) (doc : Document) :
    ∀ token ∈ (Token.tokenize text).tokens,
      (token.kind = .importLine → ∃ gap line,
        Directs "import".toList token.value.toList gap line ∧
        ∀ error, doc.addImport token.value = .error error ↔ error = .noWord ∧
          (line = [] ∨ line.head? ≠ some '"' ∧ EndsInAs ((Text.words line).map String.ofList))) ∧
      (token.kind = .pragmaLine → ∃ gap word tail,
        Directs "pragma".toList token.value.toList gap (word ++ tail) ∧ Text.EndsWord tail ∧
        (Text.words token.value.toList)[1]? = some word ∧
        (∀ error, doc.addPragma token.value = .error error ↔
          error = .noWord ∧ ' ' ∉ gap ∧ ' ' ∉ tail) ∧
        (∀ next, doc.addPragma token.value = .ok next →
          next = doc ∨ next = doc.addHeaderComment singletonComment) ∧
        (doc.addPragma token.value = .ok (doc.remark word) ↔ SpacesLead gap word tail)) := by
  intro token member
  have form := Token.tokenize_directs text token member
  constructor
  · intro isImport
    rw [isImport] at form
    obtain ⟨gap, line, directs⟩ := form
    exact ⟨gap, line, directs, doc.addImport_directs directs⟩
  · intro isPragma
    rw [isPragma] at form
    obtain ⟨gap, line, directs, nonempty⟩ := form
    obtain ⟨word, tail, rfl, solid, ends⟩ := Text.exists_word nonempty directs.starts
    refine ⟨gap, word, tail, directs, ends, ?_, doc.addPragma_lacks directs solid,
      fun _ => addPragma_ok, doc.addPragma_directs directs solid ends⟩
    rw [directs.words_eq (by decide), Text.words_front word tail solid ends]
    rfl

/-- An import and a pragma with single spaces. -/
theorem add_headerLines_spaced :
    let text := "import QtQuick 2.0\npragma Singleton\nItem \x7b\n\x7d"
    let doc : Document := { info := { name := "Sample" } }
    let line : Token := ⟨.importLine, "import QtQuick 2.0", 0, 0⟩
    let mark : Token := ⟨.pragmaLine, "pragma Singleton", 19, 0⟩
    line ∈ (Token.tokenize text).tokens ∧ mark ∈ (Token.tokenize text).tokens ∧
      (∃ gap rest, Directs "import".toList line.value.toList gap rest ∧
        ∀ error, doc.addImport line.value = .error error ↔ error = .noWord ∧
          (rest = [] ∨ rest.head? ≠ some '"' ∧ EndsInAs ((Text.words rest).map String.ofList))) ∧
      ∃ gap word tail, Directs "pragma".toList mark.value.toList gap (word ++ tail) ∧
        (Text.words mark.value.toList)[1]? = some word ∧
        (doc.addPragma mark.value = .ok (doc.remark word) ↔ SpacesLead gap word tail) := by
  intro text doc line mark
  have isLine : line ∈ (Token.tokenize text).tokens := by decide +kernel
  have isMark : mark ∈ (Token.tokenize text).tokens := by decide +kernel
  obtain ⟨gap, word, tail, directs, -, second, -, -, leads⟩ :=
    (add_headerLines text doc mark isMark).2 rfl
  exact ⟨isLine, isMark, (add_headerLines text doc line isLine).1 rfl,
    gap, word, tail, directs, second, leads⟩

/-- A tab makes a pragma fail, a second space makes it mean nothing, and what stands behind the
first space after a tab is taken for its name. An import at the end of a text fails, and so does one
that ends in `as`. -/
theorem add_headerLines_blanks :
    let doc : Document := { info := { name := "Sample" } }
    (⟨.pragmaLine, "pragma\tSingleton", 0, 0⟩ ∈
          (Token.tokenize "pragma\tSingleton\nItem \x7b\n\x7d\n").tokens ∧
        doc.addPragma "pragma\tSingleton" = .error .noWord) ∧
      (⟨.pragmaLine, "pragma  Singleton", 0, 0⟩ ∈
          (Token.tokenize "pragma  Singleton\nItem").tokens ∧
        (Text.words "pragma  Singleton".toList)[1]? = some "Singleton".toList ∧
        IsSingleton "Singleton".toList ∧ doc.addPragma "pragma  Singleton" = .ok doc) ∧
      (⟨.pragmaLine, "pragma\tStrict singleton", 0, 0⟩ ∈
          (Token.tokenize "pragma\tStrict singleton").tokens ∧
        (Text.words "pragma\tStrict singleton".toList)[1]? = some "Strict".toList ∧
        ¬IsSingleton "Strict".toList ∧
        doc.addPragma "pragma\tStrict singleton" = .ok (doc.addHeaderComment singletonComment)) ∧
      (⟨.importLine, "import ", 0, 0⟩ ∈ (Token.tokenize "import ").tokens ∧
        doc.addImport "import " = .error .noWord) ∧
      ⟨.importLine, "import Sample as", 0, 0⟩ ∈ (Token.tokenize "import Sample as\nItem").tokens ∧
        doc.addImport "import Sample as" = .error .noWord := by
  exact ⟨⟨by decide +kernel, rfl⟩, ⟨by decide +kernel, rfl, by decide, rfl⟩,
    ⟨by decide +kernel, rfl, by decide, rfl⟩, ⟨by decide +kernel, rfl⟩, by decide +kernel, rfl⟩

end Document

end QmlDoc
