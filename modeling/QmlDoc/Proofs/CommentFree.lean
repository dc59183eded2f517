import QmlDoc.Proofs.BlockEnds

set_option autoImplicit false

namespace QmlDoc

def Token.codeOf (tokens : List Token) : List Token :=
  tokens.filter fun token => !token.isComment

namespace Token

@[simp] theorem codeOf_nil : codeOf [] = [] := rfl

theorem codeOf_comment {token : Token} (rest : List Token) (isComment : token.isComment = true) :
    codeOf (token :: rest) = codeOf rest := by
  simp [codeOf, isComment]

theorem codeOf_code {token : Token} (rest : List Token) (isCode : token.isComment = false) :
    codeOf (token :: rest) = token :: codeOf rest := by
  simp [codeOf, isCode]

theorem codeOf_append (front back : List Token) :
    codeOf (front ++ back) = codeOf front ++ codeOf back :=
  List.filter_append front back

theorem codeOf_comments {comments : List Token}
    (areComments : ∀ comment ∈ comments, comment.isComment = true) : codeOf comments = [] := by
  apply List.filter_eq_nil_iff.mpr
  intro comment member
  simp [areComments comment member]

theorem codeOf_eq_self {tokens : List Token}
    (areCode : ∀ token ∈ tokens, token.isComment = false) : codeOf tokens = tokens := by
  apply List.filter_eq_self.mpr
  intro token member
  simp [areCode token member]

end Token

open Token (codeOf)

namespace Reader

def LiesIn (r : Reader) (tokens : List Token) : Prop :=
  r = past tokens r.idx

/-- The place of `r` among the tokens other than comments: what is ahead, and how many of these
tokens lie behind. -/
def bare (tokens : List Token) (r : Reader) : Reader :=
  ⟨codeOf r.rest, (codeOf (tokens.take r.idx)).length⟩

theorem past_liesIn (tokens : List Token) (place : Nat) : (past tokens place).LiesIn tokens :=
  rfl

theorem bare_past (tokens : List Token) (place : Nat) :
    (past tokens place).bare tokens =
      past (codeOf tokens) (codeOf (tokens.take place)).length := by
  have parts := Token.codeOf_append (tokens.take place) (tokens.drop place)
  rw [List.take_append_drop] at parts
  simp only [past, bare, parts, List.drop_left]

theorem LiesIn.of_reaches {r s : Reader} {tokens : List Token} (lies : r.LiesIn tokens)
    (reaches : r.Reaches s) : s.LiesIn tokens := by
  obtain ⟨read, order, place⟩ := reaches
  have ahead : r.rest = tokens.drop r.idx := congrArg Reader.rest lies
  have behind : s.rest = tokens.drop s.idx := by
    rw [place, ← List.drop_drop, ← ahead, order, List.drop_left]
  rw [LiesIn, past, ← behind]

theorem LiesIn.take_succ {token : Token} {rest tokens : List Token} {idx : Nat}
    (lies : LiesIn ⟨token :: rest, idx⟩ tokens) :
    tokens.take (idx + 1) = tokens.take idx ++ [token] := by
  have ahead : token :: rest = tokens.drop idx := congrArg Reader.rest lies
  have here : tokens[idx]? = some token := by
    rw [← List.head?_drop, ← ahead, List.head?_cons]
  rw [List.take_add_one, here, Option.toList_some]

theorem bare_comment {token : Token} {rest tokens : List Token} {idx : Nat}
    (lies : LiesIn ⟨token :: rest, idx⟩ tokens) (isComment : token.isComment = true) :
    bare tokens ⟨rest, idx + 1⟩ = bare tokens ⟨token :: rest, idx⟩ := by
  simp only [bare, lies.take_succ, Token.codeOf_append, Token.codeOf_comment _ isComment,
    Token.codeOf_nil, List.append_nil]

theorem bare_code {token : Token} {rest tokens : List Token} {idx : Nat}
    (lies : LiesIn ⟨token :: rest, idx⟩ tokens) (isCode : token.isComment = false) :
    ∃ place, bare tokens ⟨token :: rest, idx⟩ = ⟨token :: codeOf rest, place⟩ ∧
      bare tokens ⟨rest, idx + 1⟩ = ⟨codeOf rest, place + 1⟩ := by
  refine ⟨(codeOf (tokens.take idx)).length, ?_, ?_⟩
  · rw [bare, Token.codeOf_code _ isCode]
  · rw [bare, lies.take_succ, Token.codeOf_append, Token.codeOf_code _ isCode, Token.codeOf_nil,
      List.length_append, List.length_singleton]

theorem Finds.codeOf_eq {r s : Reader} {token : Token} (finds : r.Finds token s) :
    codeOf r.rest = token :: codeOf s.rest := by
  obtain ⟨comments, order, areComments, isCode, -⟩ := finds
  rw [order, Token.codeOf_append, Token.codeOf_comments areComments,
    Token.codeOf_code _ isCode, List.nil_append]

theorem Reaches.codeOf_length_le {r s : Reader} (reaches : r.Reaches s) :
    (codeOf s.rest).length ≤ (codeOf r.rest).length := by
  obtain ⟨read, order, -⟩ := reaches
  rw [order, Token.codeOf_append, List.length_append]
  omega

end Reader

namespace Reading

/-- An outcome on all tokens as it is on those that are no comments. -/
def bareOutcome {α : Type} (tokens : List Token) :
    EStateM.Result ReadError Reader α → EStateM.Result ReadError Reader α
  | .ok value s => .ok value (s.bare tokens)
  | .error error s => .error error (s.bare tokens)

/-- Reading has the same outcome on the tokens without their comments, from the place that
corresponds: the same value or the same error, and the place where it stops corresponds too. -/
def IgnoresComments {α : Type} (reading : Reading α) : Prop :=
  ∀ tokens place,
    reading (Reader.past (codeOf tokens) (codeOf (tokens.take place)).length) =
      bareOutcome tokens (reading (Reader.past tokens place))

/-- What `reading` does at `r`, `other` does at the corresponding place among the tokens that are
no comments. The two differ in the rounds that they allow for a loop. -/
def Mirrors {α : Type} (tokens : List Token) (r : Reader) (reading other : Reading α) : Prop :=
  other (r.bare tokens) = bareOutcome tokens (reading r)

section

variable {α β : Type} {tokens : List Token} {r : Reader}

theorem mirrors_pure (value : α) : Mirrors tokens r (pure value) (pure value) :=
  rfl

theorem mirrors_fail (error : ReadError) :
    Mirrors tokens r (fail error : Reading α) (fail error) :=
  rfl

theorem mirrors_get {next next' : Reader → Reading β}
    (mirrors : Mirrors tokens r (next r) (next' (r.bare tokens))) :
    Mirrors tokens r (get >>= next) (get >>= next') :=
  mirrors

theorem mirrors_ite {condition : Prop} [Decidable condition] {first second : Reading α}
    {first' second' : Reading α} (isTrue : condition → Mirrors tokens r first first')
    (isFalse : ¬condition → Mirrors tokens r second second') :
    Mirrors tokens r (if condition then first else second)
      (if condition then first' else second') := by
  by_cases holds : condition
  · rw [if_pos holds, if_pos holds]
    exact isTrue holds
  · rw [if_neg holds, if_neg holds]
    exact isFalse holds

theorem Mirrors.bind {first first' : Reading α} {next next' : α → Reading β}
    (mirrors : Mirrors tokens r first first')
    (later : ∀ value s, first r = .ok value s → Mirrors tokens s (next value) (next' value)) :
    Mirrors tokens r (first >>= next) (first' >>= next') := by
  unfold Mirrors at mirrors ⊢
  cases outcome : first r with
  | ok value s =>
      rw [outcome] at mirrors
      rw [bind_of_ok outcome, bind_of_ok mirrors]
      exact later value s outcome
  | error error s =>
      rw [outcome] at mirrors
      rw [bind_of_error outcome, bind_of_error mirrors]
      rfl

theorem code_mirrors (lies : r.LiesIn tokens) : Mirrors tokens r code code := by
  obtain ⟨rest, idx⟩ := r
  induction rest generalizing idx with
  | nil => rfl
  | cons token rest ih =>
      have next := lies.of_reaches (Reader.passes_cons token rest idx).reaches
      unfold Mirrors
      cases isComment : token.isComment with
      | true =>
          rw [code_comment rest idx isComment, ← Reader.bare_comment lies isComment]
          exact ih (idx + 1) next
      | false =>
          obtain ⟨place, here, behind⟩ := Reader.bare_code lies isComment
          rw [code_cons token rest idx isComment, here, code_cons token _ place isComment]
          simp only [bareOutcome, behind]

/-- The rule for a token that is expected: what follows it starts right behind it. -/
theorem mirrors_expect {expected : Expected} {next next' : Token → Reading β}
    (lies : r.LiesIn tokens)
    (later : ∀ token s, r.Finds token s → s.LiesIn tokens →
      Mirrors tokens s (next token) (next' token)) :
    Mirrors tokens r (expect expected >>= next) (expect expected >>= next') := by
  have mirrors : Mirrors tokens r (expect expected) (expect expected) := by
    apply (code_mirrors lies).bind
    intro token s read
    exact mirrors_ite (fun _ => mirrors_pure token) fun _ => mirrors_fail _
  apply mirrors.bind
  intro token s read
  obtain ⟨reaches, finds, -⟩ := (expect_meets expected r).of_ok read
  exact later token s finds (lies.of_reaches reaches)

theorem mirrors_expectValue {expected : Expected} {value : String} {next next' : Token → Reading β}
    (lies : r.LiesIn tokens)
    (later : ∀ token s, s.LiesIn tokens → Mirrors tokens s (next token) (next' token)) :
    Mirrors tokens r (expectValue expected value >>= next)
      (expectValue expected value >>= next') := by
  unfold expectValue
  rw [bind_assoc, bind_assoc]
  apply mirrors_expect lies
  intro token s finds there
  by_cases same : token.value = value
  · simp only [if_pos same, pure_bind]
    exact later token s there
  · simp only [if_neg same]
    exact mirrors_fail _

/-- The blocks that are open are counted alike. -/
theorem blockRest_mirrors (rest : List Token) : ∀ depth idx : Nat,
    Reader.LiesIn ⟨rest, idx⟩ tokens →
    blockRest depth (Reader.bare tokens ⟨rest, idx⟩).idx (codeOf rest) =
      bareOutcome tokens (blockRest depth idx rest) := by
  induction rest with
  | nil => intro depth idx lies; rfl
  | cons token rest ih =>
      intro depth idx lies
      have next := lies.of_reaches (Reader.passes_cons token rest idx).reaches
      cases isComment : token.isComment with
      | true =>
          have notStart : token.kind ≠ .blockStart := by
            intro kindIs
            rw [Token.isComment, kindIs] at isComment
            cases isComment
          have notEnd : token.kind ≠ .blockEnd := by
            intro kindIs
            rw [Token.isComment, kindIs] at isComment
            cases isComment
          rw [blockRest_other depth idx token rest notStart notEnd,
            Token.codeOf_comment rest isComment, ← Reader.bare_comment lies isComment]
          exact ih depth (idx + 1) next
      | false =>
          obtain ⟨place, here, behind⟩ := Reader.bare_code lies isComment
          have goOn (inner : Nat) : blockRest inner (place + 1) (codeOf rest) =
              bareOutcome tokens (blockRest inner (idx + 1) rest) := by
            have later := ih inner (idx + 1) next
            rw [behind] at later
            exact later
          rw [here, Token.codeOf_code rest isComment]
          by_cases isStart : token.kind = .blockStart
          · simp only [blockRest_cons, isStart]
            exact goOn (depth + 1)
          · by_cases isEnd : token.kind = .blockEnd
            · cases depth with
              | zero => simp only [blockRest_cons, isEnd, bareOutcome, behind]
              | succ depth =>
                  simp only [blockRest_cons, isEnd]
                  exact goOn depth
            · rw [blockRest_other _ _ _ _ isStart isEnd, blockRest_other _ _ _ _ isStart isEnd]
              exact goOn depth

theorem skipBlock_mirrors (lies : r.LiesIn tokens) : Mirrors tokens r skipBlock skipBlock :=
  blockRest_mirrors r.rest 0 r.idx lies

end

/-- A reader that does the same at corresponding places ignores comments. -/
theorem ignoresComments_of_mirrors {α : Type} {reading : Reading α}
    (mirrors : ∀ tokens (r : Reader), r.LiesIn tokens → Mirrors tokens r reading reading) :
    reading.IgnoresComments := by
  intro tokens place
  have same := mirrors tokens (Reader.past tokens place) (Reader.past_liesIn tokens place)
  rw [Mirrors, Reader.bare_past] at same
  exact same

end Reading

namespace Argument

open Reading

variable {tokens : List Token}

theorem defaultValueFrom_mirrors (n : Nat) : ∀ (m : Nat) (value : String) (r : Reader),
    r.LiesIn tokens → r.rest.length < n → (codeOf r.rest).length < m →
    Mirrors tokens r (defaultValueFrom n value) (defaultValueFrom m value) := by
  induction n with
  | zero => intro m value r lies enough; omega
  | succ n ih =>
      intro m value r lies enough bareEnough
      obtain ⟨m, rfl⟩ : ∃ k, m = k + 1 := ⟨m - 1, by omega⟩
      unfold defaultValueFrom
      apply mirrors_expect lies
      intro token s finds there
      have shorter := finds.passes.length_lt
      have bareShorter := congrArg List.length finds.codeOf_eq
      rw [List.length_cons] at bareShorter
      have goOn (longer : String) (t : Reader) (onward : s.Reaches t) :
          Mirrors tokens t (defaultValueFrom n longer) (defaultValueFrom m longer) := by
        have bound := onward.length_le
        have bareBound := onward.codeOf_length_le
        exact ih m longer t (there.of_reaches onward) (by omega) (by omega)
      apply mirrors_ite (fun _ => mirrors_pure _)
      intro notStop
      apply mirrors_ite
      · intro isBrace
        apply mirrors_expect there
        exact fun stop t closes _ => goOn _ t closes.passes.reaches
      · intro notBrace
        apply mirrors_ite
        · intro isBracket
          apply mirrors_expect there
          exact fun stop t closes _ => goOn _ t closes.passes.reaches
        · exact fun _ => goOn _ s (Reader.Reaches.refl s)

theorem behindValue_mirrors (valued : Argument) (stop : Token) {r : Reader}
    (lies : r.LiesIn tokens) :
    Mirrors tokens r (behindValue valued stop) (behindValue valued stop) := by
  unfold behindValue
  apply mirrors_ite
  · intro isColon
    apply mirrors_expect lies
    intro type s _ there
    apply mirrors_expect there
    exact fun next t _ _ => mirrors_pure _
  · exact fun _ => mirrors_pure _

theorem behindName_mirrors (named : Argument) {r : Reader} (lies : r.LiesIn tokens) :
    Mirrors tokens r (behindName named) (behindName named) := by
  unfold behindName
  apply mirrors_expect lies
  intro mark s _ there
  apply mirrors_ite
  · intro isEquals
    apply mirrors_get
    apply (defaultValueFrom_mirrors (s.rest.length + 1) ((codeOf s.rest).length + 1) "" s there
      (Nat.lt_succ_self _) (Nat.lt_succ_self _)).bind
    intro found t read
    obtain ⟨reaches, -⟩ := (defaultValueFrom_meets _ "" s (Nat.lt_succ_self _)).of_ok read
    exact behindValue_mirrors _ _ (there.of_reaches reaches)
  · exact fun _ => behindValue_mirrors _ _ there

theorem readFrom_mirrors (typed isSpread : Bool) (first : Token) {r : Reader}
    (lies : r.LiesIn tokens) :
    Mirrors tokens r (readFrom typed isSpread first) (readFrom typed isSpread first) := by
  rw [readFrom_eq]
  apply mirrors_ite
  · intro isTyped
    apply mirrors_expect lies
    exact fun name s _ there => behindName_mirrors _ there
  · exact fun _ => behindName_mirrors _ lies

theorem listFrom_mirrors (typed : Bool) (n : Nat) :
    ∀ (m : Nat) (isSpread : Bool) (first : Token) (r : Reader),
    r.LiesIn tokens → r.rest.length < n → (codeOf r.rest).length < m →
    Mirrors tokens r (listFrom typed n isSpread first) (listFrom typed m isSpread first) := by
  induction n with
  | zero => intro m isSpread first r lies enough; omega
  | succ n ih =>
      intro m isSpread first r lies enough bareEnough
      obtain ⟨m, rfl⟩ : ∃ k, m = k + 1 := ⟨m - 1, by omega⟩
      unfold listFrom
      apply (readFrom_mirrors typed isSpread first lies).bind
      rintro ⟨arg, stop⟩ s read
      obtain ⟨reaches, passes, -⟩ := (readFrom_meets typed isSpread first r).of_ok read
      have there := lies.of_reaches reaches
      have shorter := passes.length_lt
      have bareShorter := reaches.codeOf_length_le
      have goOn (spread : Bool) (name : Token) (t : Reader) (farther : t.LiesIn tokens)
          (bound : t.rest.length ≤ s.rest.length)
          (bareBound : (codeOf t.rest).length < (codeOf s.rest).length) :
          Mirrors tokens t
            (listFrom typed n spread name >>= fun later => pure (arg :: later))
            (listFrom typed m spread name >>= fun later => pure (arg :: later)) := by
        apply (ih m spread name t farther (by omega) (by omega)).bind
        exact fun later u _ => mirrors_pure _
      apply mirrors_ite (fun _ => mirrors_pure _)
      intro notClose
      apply mirrors_ite (fun _ => mirrors_fail _)
      intro isComma
      apply mirrors_expect there
      intro next t finds farther
      have bound := finds.passes.length_lt
      have bareBound := congrArg List.length finds.codeOf_eq
      rw [List.length_cons] at bareBound
      apply mirrors_ite
      · intro isDots
        apply mirrors_expect farther
        intro name u toName beyond
        have onward := toName.passes.length_lt
        have bareOnward := toName.passes.reaches.codeOf_length_le
        exact goOn true name u beyond (by omega) (by omega)
      · exact fun _ => goOn false next t farther (by omega) (by omega)

theorem readList_mirrors (typed : Bool) {r : Reader} (lies : r.LiesIn tokens) :
    Mirrors tokens r (readList typed) (readList typed) := by
  unfold readList
  apply (code_mirrors lies).bind
  intro first s read
  obtain ⟨reaches, -⟩ := (code_meets r).of_ok read
  have there := lies.of_reaches reaches
  apply mirrors_get
  have goOn (spread : Bool) (name : Token) (t : Reader) (onward : s.Reaches t) :
      Mirrors tokens t (listFrom typed (s.rest.length + 1) spread name)
        (listFrom typed ((codeOf s.rest).length + 1) spread name) := by
    have bound := onward.length_le
    have bareBound := onward.codeOf_length_le
    exact listFrom_mirrors typed _ _ spread name t (there.of_reaches onward) (by omega) (by omega)
  apply mirrors_ite (fun _ => mirrors_pure _)
  intro notClose
  apply mirrors_ite
  · intro isDots
    apply mirrors_expect there
    exact fun name t finds _ => goOn true name t finds.passes.reaches
  · intro notDots
    apply mirrors_ite
    · exact fun _ => goOn false first s (Reader.Reaches.refl s)
    · exact fun _ => mirrors_fail _

end Argument

open Reading

variable {tokens : List Token} {r : Reader}

theorem Property.read_mirrors (keyword : String) (lies : r.LiesIn tokens) :
    Mirrors tokens r (Property.read keyword) (Property.read keyword) := by
  apply mirrors_expect lies
  intro type s _ there
  apply mirrors_expect there
  exact fun name t _ _ => mirrors_pure _

theorem Function.read_mirrors (lies : r.LiesIn tokens) :
    Mirrors tokens r Function.read Function.read := by
  apply mirrors_expect lies
  intro name s _ there
  apply mirrors_expectValue there
  intro paren t farther
  apply (Argument.readList_mirrors false farther).bind
  exact fun args u _ => mirrors_pure _

/-- A signal without a list goes back to the place behind its name, which corresponds as well. -/
theorem Signal.read_mirrors (lies : r.LiesIn tokens) :
    Mirrors tokens r Signal.read Signal.read := by
  apply mirrors_expect lies
  intro name s _ there
  apply mirrors_get
  apply (code_mirrors there).bind
  intro token t read
  obtain ⟨onward, -⟩ := (code_meets s).of_ok read
  apply mirrors_ite
  · intro opens
    apply (Argument.readList_mirrors true (there.of_reaches onward)).bind
    exact fun args u _ => mirrors_pure _
  · exact fun _ => rfl

/-- Comments are transparent inside of declarations and of blocks that are passed over. -/
theorem Reading.declarations_ignoreComments :
    (∀ keyword, (Property.read keyword).IgnoresComments) ∧ Function.read.IgnoresComments ∧
      Signal.read.IgnoresComments ∧ (∀ typed, (Argument.readList typed).IgnoresComments) ∧
      skipBlock.IgnoresComments :=
  ⟨fun keyword => ignoresComments_of_mirrors fun _ _ => Property.read_mirrors keyword,
    ignoresComments_of_mirrors fun _ _ => Function.read_mirrors,
    ignoresComments_of_mirrors fun _ _ => Signal.read_mirrors,
    fun typed => ignoresComments_of_mirrors fun _ _ => Argument.readList_mirrors typed,
    ignoresComments_of_mirrors fun _ _ => skipBlock_mirrors⟩

end QmlDoc
