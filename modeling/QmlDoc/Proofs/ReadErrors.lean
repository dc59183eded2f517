import QmlDoc.Document
import QmlDoc.Proofs.BlockEnds
import QmlDoc.Proofs.Words

set_option autoImplicit false

namespace QmlDoc

/-- The only `as` among the words is the last of them. -/
def EndsInAs (words : List String) : Prop :=
  ∃ earlier, words = earlier ++ ["as"] ∧ "as" ∉ earlier

theorem endsInAs_cons (word : String) (later : List String) :
    EndsInAs (word :: later) ↔ word = "as" ∧ later = [] ∨ word ≠ "as" ∧ EndsInAs later := by
  constructor
  · rintro ⟨earlier, order, absent⟩
    cases earlier with
    | nil =>
        obtain ⟨rfl, rfl⟩ := List.cons.inj order
        exact Or.inl ⟨rfl, rfl⟩
    | cons first earlier =>
        obtain ⟨rfl, rfl⟩ := List.cons.inj order
        rw [List.mem_cons, not_or] at absent
        exact Or.inr ⟨Ne.symm absent.1, earlier, rfl, absent.2⟩
  · rintro (⟨rfl, rfl⟩ | ⟨other, earlier, rfl, absent⟩)
    · exact ⟨[], rfl, List.not_mem_nil⟩
    · refine ⟨word :: earlier, rfl, ?_⟩
      rw [List.mem_cons, not_or]
      exact ⟨Ne.symm other, absent⟩

theorem aliasWord_eq_error_iff (words : List String) (error : ReadError) :
    aliasWord words = .error error ↔ error = .noWord ∧ EndsInAs words := by
  induction words with
  | nil => simp [aliasWord, EndsInAs]
  | cons word later ih =>
      rw [aliasWord.eq_def, endsInAs_cons]
      by_cases isAs : word = "as"
      · cases later <;> simp [isAs, eq_comm]
      · simp [isAs, ih]

/-- An import without the name of a module, or with an `as` and no alias behind it. -/
def ImportLacksWord (line : String) : Prop :=
  let words := (Text.words line.toList).map String.ofList
  words.length < 2 ∨
    (∃ name, words[1]? = some name ∧ Text.startsWith name "\"" = false) ∧ EndsInAs words

def PragmaLacksWord (line : String) : Prop :=
  ' ' ∉ line.toList

namespace Document

theorem addImport_eq_error_iff (doc : Document) (line : String) (error : ReadError) :
    doc.addImport line = .error error ↔ error = .noWord ∧ ImportLacksWord line := by
  rw [addImport, ImportLacksWord]
  generalize (Text.words line.toList).map String.ofList = words
  match words with
  | [] | [_] =>
      simp only [List.length_nil, List.length_singleton, Nat.lt_add_one, Nat.zero_lt_two,
        true_or, and_true, Except.error.injEq]
      exact eq_comm
  | first :: name :: later =>
      have enough : ¬(first :: name :: later).length < 2 := by simp
      simp only [enough, false_or, List.getElem?_cons_succ, List.getElem?_cons_zero,
        Option.some.injEq, exists_eq_left']
      by_cases quoted : Text.startsWith name "\"" = true
      · simp [quoted]
      · rw [Bool.not_eq_true] at quoted
        rw [quoted, eq_self, true_and, ← aliasWord_eq_error_iff]
        cases aliasWord (first :: name :: later) with
        | error other => simp
        | ok short => cases short <;> simp

theorem addPragma_eq_error_iff (doc : Document) (line : String) (error : ReadError) :
    doc.addPragma line = .error error ↔ error = .noWord ∧ PragmaLacksWord line := by
  rw [addPragma, PragmaLacksWord]
  by_cases spaced : ' ' ∈ line.toList
  · obtain ⟨first, rest, order, absent⟩ := List.eq_append_cons_of_mem spaced
    obtain ⟨name, later, pieces⟩ := List.exists_cons_of_ne_nil (List.splitOn_ne_nil ' ' rest)
    rw [order, List.splitOn_append_cons_self_of_not_mem absent, pieces]
    simp only [List.mem_append, List.mem_cons_self, or_true, not_true, and_false, iff_false]
    split <;> simp
  · rw [List.splitOn_eq_singleton spaced]
    simp only [spaced, not_false_iff, and_true, Except.error.injEq]
    exact eq_comm

/-- A line is taken in unless it lacks a word. -/
theorem added_or_lacks {added : Except ReadError Document} {lacks : Prop}
    (fails : ∀ error, added = .error error ↔ error = .noWord ∧ lacks) :
    (∃ next, added = .ok next ∧ ¬lacks) ∨ added = .error .noWord ∧ lacks := by
  cases added with
  | ok next =>
      refine Or.inl ⟨next, rfl, fun lacking => ?_⟩
      have failed := (fails .noWord).mpr ⟨rfl, lacking⟩
      cases failed
  | error error =>
      obtain ⟨rfl, lacking⟩ := (fails error).mp rfl
      exact Or.inr ⟨rfl, lacking⟩

end Document

def Token.LacksWord (token : Token) : Prop :=
  match token.kind with
  | .importLine => ImportLacksWord token.value
  | .pragmaLine => PragmaLacksWord token.value
  | _ => False

/-- A token that can precede the name of the base type. -/
def Token.InHeader (token : Token) : Prop :=
  match token.kind with
  | .comment | .inlineComment | .importLine | .pragmaLine => True
  | _ => False

/-- Before the name of the base type stands a line with too few words. -/
def HeaderLacksWord (tokens : List Token) : Prop :=
  ∃ front line rest, tokens = front ++ line :: rest ∧ (∀ token ∈ front, token.InHeader) ∧
    line.LacksWord

theorem headerLacksWord_cons (token : Token) (rest : List Token) :
    HeaderLacksWord (token :: rest) ↔ token.LacksWord ∨ token.InHeader ∧ HeaderLacksWord rest := by
  constructor
  · rintro ⟨front, line, later, order, inHeader, lacks⟩
    cases front with
    | nil =>
        obtain ⟨rfl, -⟩ := List.cons.inj order
        exact Or.inl lacks
    | cons first front =>
        obtain ⟨rfl, rfl⟩ := List.cons.inj order
        rw [List.forall_mem_cons] at inHeader
        exact Or.inr ⟨inHeader.1, front, line, later, rfl, inHeader.2, lacks⟩
  · rintro (lacks | ⟨inHeader, front, line, later, rfl, allInHeader, lacks⟩)
    · exact ⟨[], token, rest, rfl, fun _ member => absurd member List.not_mem_nil, lacks⟩
    · exact ⟨token :: front, line, later, rfl, List.forall_mem_cons.mpr ⟨inHeader, allInHeader⟩,
        lacks⟩

namespace Document

/-- One token of the header: it is taken in, it lacks a word, it is the name of the base type or
it has no place there. -/
theorem takeHeader_cases (doc : Document) (token : Token) :
    (∃ next, doc.takeHeader token = .ok (next, true) ∧ token.InHeader ∧ ¬token.LacksWord) ∨
      (doc.takeHeader token = .error .noWord ∧ token.LacksWord) ∨
      ((∃ next, doc.takeHeader token = .ok (next, false)) ∨
          doc.takeHeader token = .error (.unexpected token)) ∧
        ¬token.InHeader ∧ ¬token.LacksWord := by
  rw [takeHeader, Token.InHeader, Token.LacksWord]
  cases token.kind <;> dsimp only
  case comment | inlineComment => exact Or.inl ⟨_, rfl, trivial, id⟩
  case importLine =>
      rcases added_or_lacks (addImport_eq_error_iff doc token.value) with
        ⟨next, added, complete⟩ | ⟨failed, lacks⟩
      · rw [added]
        exact Or.inl ⟨next, rfl, trivial, complete⟩
      · rw [failed]
        exact Or.inr (Or.inl ⟨rfl, lacks⟩)
  case pragmaLine =>
      rcases added_or_lacks (addPragma_eq_error_iff doc token.value) with
        ⟨next, added, complete⟩ | ⟨failed, lacks⟩
      · rw [added]
        exact Or.inl ⟨next, rfl, trivial, complete⟩
      · rw [failed]
        exact Or.inr (Or.inl ⟨rfl, lacks⟩)
  case component => exact Or.inr (Or.inr ⟨Or.inl ⟨_, rfl⟩, id, id⟩)
  all_goals exact Or.inr (Or.inr ⟨Or.inr rfl, id, id⟩)

/-- What was read from `r` on lies ahead of it, and an error is about the token read last or
says that there is none left. -/
def Parsed.Meets (parsed : Parsed) (r : Reader) : Prop :=
  match parsed.error with
  | none => r.Reaches parsed.reader
  | some error => error.Stops r parsed.reader

theorem Parsed.Meets.from {parsed : Parsed} {r s : Reader} (meets : parsed.Meets s)
    (reaches : r.Reaches s) : parsed.Meets r := by
  obtain ⟨doc, error, reader⟩ := parsed
  cases error with
  | none => exact reaches.trans meets
  | some error => exact ReadError.Stops.from meets reaches

theorem Parsed.Meets.andThen {parsed : Parsed} {r : Reader} (meets : parsed.Meets r)
    {next : Document → Reader → Parsed} (nextMeets : ∀ doc s, (next doc s).Meets s) :
    (parsed.andThen next).Meets r := by
  obtain ⟨doc, error, reader⟩ := parsed
  cases error with
  | none => exact (nextMeets doc reader).from meets
  | some error => exact meets

theorem Parsed.Meets.error_ne_noWord {parsed : Parsed} {r : Reader} (meets : parsed.Meets r) :
    parsed.error ≠ some .noWord := by
  intro isNoWord
  rw [Parsed.Meets, isNoWord] at meets
  rcases meets with ⟨other, -⟩ | ⟨token, none, -⟩
  · cases other
  · cases none

theorem readHeader_meets (tokens : List Token) : ∀ (doc : Document) (idx : Nat),
    let parsed := doc.readHeader ⟨tokens, idx⟩
    HeaderLacksWord tokens ∧ parsed.error = some .noWord ∨
      ¬HeaderLacksWord tokens ∧ parsed.Meets ⟨tokens, idx⟩ := by
  induction tokens with
  | nil =>
      intro doc idx
      refine Or.inr ⟨?_, Reader.Reaches.refl _⟩
      rintro ⟨front, line, rest, order, -⟩
      simp at order
  | cons token rest ih =>
      intro doc idx
      have passes := Reader.passes_cons token rest idx
      dsimp only
      rw [headerLacksWord_cons, readHeader, takeFrom]
      rcases doc.takeHeader_cases token with
        ⟨next, taken, inHeader, complete⟩ | ⟨failed, lacks⟩ | ⟨ended, outside, complete⟩
      · rw [taken]
        rcases ih next (idx + 1) with ⟨lacks, failed⟩ | ⟨allComplete, meets⟩
        · exact Or.inl ⟨Or.inr ⟨inHeader, lacks⟩, failed⟩
        · refine Or.inr ⟨?_, meets.from passes.reaches⟩
          rintro (lacks | ⟨-, lacks⟩)
          · exact complete lacks
          · exact allComplete lacks
      · rw [failed]
        exact Or.inl ⟨Or.inl lacks, rfl⟩
      · refine Or.inr ⟨?_, ?_⟩
        · rintro (lacks | ⟨inHeader, -⟩)
          · exact complete lacks
          · exact outside inHeader
        · rcases ended with ⟨next, named⟩ | unexpected
          · rw [named]
            exact passes.reaches
          · rw [unexpected]
            exact Or.inr ⟨token, rfl, passes⟩

theorem readBody_meets (doc : Document) (nested : Bool) (r : Reader) :
    (doc.readBody nested r).Meets r := by
  have meets := Element.readBody_meets nested r
  rw [readBody, Parsed.Meets]
  revert meets
  dsimp only
  cases (Element.readBody nested r).error with
  | none => exact fun ⟨_, _, _, _, reaches, _⟩ => reaches
  | some error => exact id

theorem readFooter_meets (tokens : List Token) : ∀ (doc : Document) (idx : Nat),
    let parsed := doc.readFooter ⟨tokens, idx⟩
    parsed.Meets ⟨tokens, idx⟩ ∧ (parsed.error = none → parsed.reader.rest = []) := by
  induction tokens with
  | nil => exact fun _ _ => ⟨Reader.Reaches.refl _, fun _ => rfl⟩
  | cons token rest ih =>
      intro doc idx
      have passes := Reader.passes_cons token rest idx
      dsimp only
      rw [readFooter, takeFrom, takeFooter]
      by_cases isComment : token.isComment = true
      · rw [if_pos isComment]
        obtain ⟨meets, atEnd⟩ := ih (doc.addFooterComment token.value) (idx + 1)
        exact ⟨meets.from passes.reaches, atEnd⟩
      · rw [if_neg isComment]
        exact ⟨Or.inr ⟨token, rfl, passes⟩, fun noError => nomatch noError⟩

end Document

theorem Reader.Reaches.past_end {tokens : List Token} {s : Reader}
    (reaches : (Reader.ofTokens tokens).Reaches s) (atEnd : s.rest = []) :
    s = .past tokens tokens.length := by
  obtain ⟨read, order, place⟩ := reaches
  obtain ⟨rest, idx⟩ := s
  obtain rfl : rest = [] := atEnd
  obtain rfl : tokens = read := by simpa [Reader.ofTokens] using order
  obtain rfl : idx = tokens.length := by simpa [Reader.ofTokens] using place
  rw [Reader.past, List.drop_length]

theorem Reader.Passes.past {tokens : List Token} {token : Token} {s : Reader}
    (passes : (Reader.ofTokens tokens).Passes token s) :
    ∃ place, tokens[place]? = some token ∧ s = .past tokens (place + 1) := by
  obtain ⟨read, order, place⟩ := passes
  obtain ⟨rest, idx⟩ := s
  obtain rfl : tokens = read ++ token :: rest := order
  obtain rfl : idx = read.length + 1 := by simpa [Reader.ofTokens] using place
  refine ⟨read.length, by simp, ?_⟩
  rw [Reader.past, ← List.drop_drop, List.drop_left, List.drop_one, List.tail_cons]

namespace Document

/-- A file whose header has no line with too few words is read up to the end, up to a token that
does not fit, or out of tokens. -/
theorem read_meets (doc : Document) (nested : Bool) (tokens : List Token) :
    let parsed := doc.read nested tokens
    HeaderLacksWord tokens ∧ parsed.error = some .noWord ∨
      ¬HeaderLacksWord tokens ∧ parsed.Meets (Reader.ofTokens tokens) ∧
        (parsed.error = none → parsed.reader.rest = []) := by
  dsimp only
  rw [read]
  rcases readHeader_meets tokens doc 0 with ⟨lacks, failed⟩ | ⟨complete, meets⟩
  · refine Or.inl ⟨lacks, ?_⟩
    simp only [Reader.ofTokens, Parsed.andThen, failed]
  · have bodyMeets := meets.andThen fun doc r => doc.readBody_meets nested r
    refine Or.inr ⟨complete, bodyMeets.andThen fun doc r => ?_, ?_⟩
    · exact (readFooter_meets r.rest doc r.idx).1
    · rw [Parsed.andThen]
      split
      next => exact (readFooter_meets _ _ _).2
      next error failed => exact fun noError => nomatch failed.symm.trans noError

/-- Where reading a file ends. Without an error all tokens are read. An error that is about a
token, and so can be reported with its place, is about the token read last. Two errors are about
none: all tokens are read and one more is needed, or, exactly if the header has a line with too
few words, a word is missing. -/
theorem read_stops (doc : Document) (nested : Bool) (tokens : List Token) :
    let parsed := doc.read nested tokens
    (parsed.error = some .noWord ↔ HeaderLacksWord tokens) ∧
      (parsed.error = none ∧ parsed.reader = .past tokens tokens.length ∨
        parsed.error = some .noToken ∧ parsed.reader = .past tokens tokens.length ∨
        parsed.error = some .noWord ∨
        ∃ error token place, parsed.error = some error ∧ error.token? = some token ∧
          tokens[place]? = some token ∧ parsed.reader = .past tokens (place + 1)) := by
  dsimp only
  rcases doc.read_meets nested tokens with ⟨lacks, failed⟩ | ⟨complete, meets, atEnd⟩
  · exact ⟨iff_of_true failed lacks, Or.inr (Or.inr (Or.inl failed))⟩
  · refine ⟨iff_of_false meets.error_ne_noWord complete, ?_⟩
    rw [Parsed.Meets] at meets
    cases outcome : (doc.read nested tokens).error with
    | none =>
        rw [outcome] at meets
        exact Or.inl ⟨rfl, meets.past_end (atEnd outcome)⟩
    | some error =>
        rw [outcome] at meets
        rcases meets with ⟨rfl, reaches, noneLeft⟩ | ⟨token, isToken, passes⟩
        · exact Or.inr (Or.inl ⟨rfl, reaches.past_end noneLeft⟩)
        · obtain ⟨place, atPlace, stopped⟩ := passes.past
          exact Or.inr (Or.inr (Or.inr ⟨error, token, place, rfl, isToken, atPlace, stopped⟩))

/-- A file that breaks off inside of a property, and one whose import has no alias: both have
tokens, and neither error is about one of them. -/
theorem read_stops_cut :
    let cut := Token.tokenize "Item \x7b\n    property int\n"
    let unnamed := Token.tokenize "import QtQuick 2.0 as\nItem \x7b\n\x7d"
    let doc : Document := { info := { name := "Sample" } }
    cut.error = none ∧ (doc.read true cut.tokens).error = some .noToken ∧
      ReadError.noToken.token? = none ∧
      unnamed.error = none ∧ (doc.read true unnamed.tokens).error = some .noWord ∧
      ReadError.noWord.token? = none := by
  decide +kernel

end Document

end QmlDoc
