import QmlDoc.Element.Reader
import QmlDoc.Proofs.Block
import QmlDoc.Proofs.ReadDeclaration

set_option autoImplicit false

namespace QmlDoc

namespace Reader

/-- `s` stands farther on in the tokens of `r`, or at the same place. -/
def Reaches (r s : Reader) : Prop :=
  ∃ read, r.rest = read ++ s.rest ∧ s.idx = r.idx + read.length

/-- `s` stands right behind `token`, which lies ahead of `r`. -/
def Passes (r : Reader) (token : Token) (s : Reader) : Prop :=
  ∃ read, r.rest = read ++ token :: s.rest ∧ s.idx = r.idx + read.length + 1

/-- `s` stands right behind `token`, the first token other than a comment ahead of `r`. -/
def Finds (r : Reader) (token : Token) (s : Reader) : Prop :=
  ∃ comments, r.rest = comments ++ token :: s.rest ∧
    (∀ comment ∈ comments, comment.isComment = true) ∧ token.isComment = false ∧
    s.idx = r.idx + comments.length + 1

theorem Reaches.refl (r : Reader) : r.Reaches r :=
  ⟨[], rfl, rfl⟩

theorem Reaches.trans {r s t : Reader} (first : r.Reaches s) (second : s.Reaches t) :
    r.Reaches t := by
  obtain ⟨front, order, place⟩ := first
  obtain ⟨back, order', place'⟩ := second
  refine ⟨front ++ back, by rw [order, order', List.append_assoc], ?_⟩
  rw [place', place, List.length_append]
  omega

theorem Reaches.passes {r s t : Reader} {token : Token} (first : r.Reaches s)
    (second : s.Passes token t) : r.Passes token t := by
  obtain ⟨front, order, place⟩ := first
  obtain ⟨back, order', place'⟩ := second
  refine ⟨front ++ back, by rw [order, order', List.append_assoc], ?_⟩
  rw [place', place, List.length_append]
  omega

theorem Reaches.length_le {r s : Reader} (reaches : r.Reaches s) :
    s.rest.length ≤ r.rest.length := by
  obtain ⟨read, order, -⟩ := reaches
  rw [order, List.length_append]
  omega

theorem Passes.reaches {r s : Reader} {token : Token} (passes : r.Passes token s) :
    r.Reaches s := by
  obtain ⟨read, order, place⟩ := passes
  refine ⟨read ++ [token], by rw [order, List.append_assoc]; rfl, ?_⟩
  rw [place, List.length_append, List.length_singleton]
  omega

theorem Passes.length_lt {r s : Reader} {token : Token} (passes : r.Passes token s) :
    s.rest.length < r.rest.length := by
  obtain ⟨read, order, -⟩ := passes
  rw [order, List.length_append, List.length_cons]
  omega

theorem Finds.passes {r s : Reader} {token : Token} (finds : r.Finds token s) :
    r.Passes token s := by
  obtain ⟨comments, order, -, -, place⟩ := finds
  exact ⟨comments, order, place⟩

theorem Finds.of_comment {comment token : Token} {rest : List Token} {idx : Nat} {s : Reader}
    (finds : Finds ⟨rest, idx + 1⟩ token s) (isComment : comment.isComment = true) :
    Finds ⟨comment :: rest, idx⟩ token s := by
  obtain ⟨comments, order, areComments, isCode, place⟩ := finds
  refine ⟨comment :: comments, congrArg _ order, ?_, isCode, ?_⟩
  · exact List.forall_mem_cons.mpr ⟨isComment, areComments⟩
  · dsimp only at place ⊢
    rw [place, List.length_cons]
    omega

theorem passes_cons (token : Token) (rest : List Token) (idx : Nat) :
    Passes ⟨token :: rest, idx⟩ token ⟨rest, idx + 1⟩ :=
  ⟨[], rfl, rfl⟩

/-- As many blocks are open at `s` as at `r`: from both, passing over the rest of a block ends
alike. -/
def Level (r s : Reader) : Prop :=
  ∀ depth, Reading.blockRest depth r.idx r.rest = Reading.blockRest depth s.idx s.rest

/-- `s` stands right behind the end of the block in which `r` stands; or that block has no end,
and no token is left at `s`. -/
def Leaves (r s : Reader) : Prop :=
  Reading.blockRest 0 r.idx r.rest = .ok () s ∨
    s.rest = [] ∧ ∀ depth, Reading.blockRest depth r.idx r.rest = .error .noToken s

theorem Level.refl (r : Reader) : r.Level r :=
  fun _ => rfl

theorem Level.trans {r s t : Reader} (first : r.Level s) (second : s.Level t) : r.Level t :=
  fun depth => (first depth).trans (second depth)

theorem Level.leaves {r s t : Reader} (level : r.Level s) (leaves : s.Leaves t) :
    r.Leaves t := by
  rcases leaves with ends | ⟨atEnd, endless⟩
  · exact Or.inl ((level 0).trans ends)
  · exact Or.inr ⟨atEnd, fun depth => (level depth).trans (endless depth)⟩

theorem leaves_of_nil (r : Reader) (atEnd : r.rest = []) : r.Leaves r := by
  obtain ⟨rest, idx⟩ := r
  obtain rfl : rest = [] := atEnd
  exact Or.inr ⟨rfl, fun _ => rfl⟩

theorem leaves_end (token : Token) (rest : List Token) (idx : Nat)
    (isEnd : token.kind = .blockEnd) : Leaves ⟨token :: rest, idx⟩ ⟨rest, idx + 1⟩ := by
  left
  simp only [Reading.blockRest_cons, isEnd]

/-- A token that neither opens nor closes a block. -/
theorem level_cons (token : Token) (rest : List Token) (idx : Nat)
    (notStart : token.kind ≠ .blockStart) (notEnd : token.kind ≠ .blockEnd) :
    Level ⟨token :: rest, idx⟩ ⟨rest, idx + 1⟩ :=
  fun depth => Reading.blockRest_other depth idx token rest notStart notEnd

theorem level_comments (comments rest : List Token) (idx : Nat)
    (areComments : ∀ comment ∈ comments, comment.isComment = true) :
    Level ⟨comments ++ rest, idx⟩ ⟨rest, idx + comments.length⟩ := by
  induction comments generalizing idx with
  | nil => exact Level.refl _
  | cons comment comments ih =>
      have isComment := areComments comment (by simp)
      have first : Level ⟨comment :: (comments ++ rest), idx⟩ ⟨comments ++ rest, idx + 1⟩ := by
        apply level_cons <;> intro kindIs <;> rw [Token.isComment, kindIs] at isComment <;>
          cases isComment
      have later := ih (idx + 1) fun each member => areComments each (by simp [member])
      rw [List.length_cons, Nat.add_comm comments.length, ← Nat.add_assoc]
      exact first.trans later

theorem Finds.level_front {r s : Reader} {token : Token} (finds : r.Finds token s) :
    ∃ place, s.idx = place + 1 ∧ r.Level ⟨token :: s.rest, place⟩ := by
  obtain ⟨comments, order, areComments, -, place⟩ := finds
  refine ⟨r.idx + comments.length, place, ?_⟩
  have passed := level_comments comments (token :: s.rest) r.idx areComments
  rw [← order] at passed
  exact passed

theorem Finds.level {r s : Reader} {token : Token} (finds : r.Finds token s)
    (notStart : token.kind ≠ .blockStart) (notEnd : token.kind ≠ .blockEnd) : r.Level s := by
  obtain ⟨place, isPlace, front⟩ := finds.level_front
  have passed := level_cons token s.rest place notStart notEnd
  rw [← isPlace] at passed
  exact front.trans passed

theorem Finds.leaves {r s : Reader} {token : Token} (finds : r.Finds token s)
    (isEnd : token.kind = .blockEnd) : r.Leaves s := by
  obtain ⟨place, isPlace, front⟩ := finds.level_front
  have ended := leaves_end token s.rest place isEnd
  rw [← isPlace] at ended
  exact front.leaves ended

end Reader

/-- Passing over a block inside of others: when the block ends, the next outer one goes on. -/
theorem Reading.blockRest_succ (tokens : List Token) : ∀ depth inner idx : Nat,
    Reading.blockRest (inner + depth + 1) idx tokens =
      match Reading.blockRest inner idx tokens with
      | .ok _ s => Reading.blockRest depth s.idx s.rest
      | .error error s => .error error s := by
  induction tokens with
  | nil => intro depth inner idx; rfl
  | cons token tokens ih =>
      intro depth inner idx
      by_cases isStart : token.kind = .blockStart
      · simp only [Reading.blockRest_cons, isStart]
        rw [← ih depth (inner + 1) (idx + 1)]
        congr 1
        omega
      · by_cases isEnd : token.kind = .blockEnd
        · cases inner with
          | zero => simp only [Nat.zero_add, Reading.blockRest_cons, isEnd]
          | succ inner =>
              have outer : inner + 1 + depth + 1 = (inner + depth + 1) + 1 := by omega
              rw [outer]
              simp only [Reading.blockRest_cons, isEnd]
              exact ih depth inner (idx + 1)
        · rw [Reading.blockRest_other _ _ _ _ isStart isEnd,
            Reading.blockRest_other _ _ _ _ isStart isEnd]
          exact ih depth inner (idx + 1)

theorem Reader.Leaves.outer {r s : Reader} (leaves : r.Leaves s) (depth : Nat) :
    Reading.blockRest (depth + 1) r.idx r.rest = Reading.blockRest depth s.idx s.rest := by
  rcases leaves with ends | ⟨atEnd, endless⟩
  · have step := Reading.blockRest_succ r.rest depth 0 r.idx
    rw [Nat.zero_add, ends] at step
    exact step
  · obtain ⟨rest, idx⟩ := s
    obtain rfl : rest = [] := atEnd
    exact endless (depth + 1)

/-- A block that is opened and left again leaves as many open as before. -/
theorem Reader.Finds.level_block {r s t : Reader} {token : Token} (finds : r.Finds token s)
    (isStart : token.kind = .blockStart) (leaves : s.Leaves t) : r.Level t := by
  obtain ⟨place, isPlace, front⟩ := finds.level_front
  intro depth
  rw [front depth, ← leaves.outer depth, isPlace]
  simp only [Reading.blockRest_cons, isStart]

/-- How reading that started at `start` can fail: at `s` no token is left, or the error is about
the token right before `s`. -/
def ReadError.Stops (start : Reader) (error : ReadError) (s : Reader) : Prop :=
  error = .noToken ∧ start.Reaches s ∧ s.rest = [] ∨
    ∃ token, error.token? = some token ∧ start.Passes token s

theorem ReadError.Stops.from {start r s : Reader} {error : ReadError} (stops : error.Stops r s)
    (reaches : start.Reaches r) : error.Stops start s := by
  rcases stops with ⟨isOut, onward, atEnd⟩ | ⟨token, isToken, passes⟩
  · exact Or.inl ⟨isOut, reaches.trans onward, atEnd⟩
  · exact Or.inr ⟨token, isToken, reaches.passes passes⟩

namespace Reading

/-- Reading at `r`, as part of what started at `start`, goes on through the same tokens and
satisfies `done`, or it stops with an error. -/
def Meets {α : Type} (reading : Reading α) (start r : Reader) (done : α → Reader → Prop) : Prop :=
  match reading r with
  | .ok value s => start.Reaches s ∧ done value s
  | .error error s => error.Stops start s

section

variable {α β : Type} {start r : Reader} {done : α → Reader → Prop} {after : β → Reader → Prop}

theorem Meets.of_ok {reading : Reading α} (meets : reading.Meets start r done) {value : α}
    {s : Reader} (read : reading r = .ok value s) : start.Reaches s ∧ done value s := by
  rw [Meets, read] at meets
  exact meets

theorem Meets.of_error {reading : Reading α} (meets : reading.Meets start r done)
    {error : ReadError} {s : Reader} (failed : reading r = .error error s) :
    error.Stops start s := by
  rw [Meets, failed] at meets
  exact meets

theorem Meets.bind {first : Reading α} {next : α → Reading β} (meets : first.Meets start r done)
    (later : ∀ value s, start.Reaches s → done value s → (next value).Meets start s after) :
    (first >>= next).Meets start r after := by
  cases outcome : first r with
  | ok value s =>
      obtain ⟨reaches, holds⟩ := meets.of_ok outcome
      rw [Meets, bind_of_ok outcome]
      exact later value s reaches holds
  | error error s =>
      have stops := meets.of_error outcome
      rw [Meets, bind_of_error outcome]
      exact stops

theorem Meets.from {reading : Reading α} (meets : reading.Meets r r done)
    (reaches : start.Reaches r) : reading.Meets start r done := by
  cases outcome : reading r with
  | ok value s =>
      obtain ⟨onward, holds⟩ := meets.of_ok outcome
      rw [Meets, outcome]
      exact ⟨reaches.trans onward, holds⟩
  | error error s =>
      rw [Meets, outcome]
      exact (meets.of_error outcome).from reaches

theorem Meets.imp {reading : Reading α} {weaker : α → Reader → Prop}
    (meets : reading.Meets start r done) (implies : ∀ value s, done value s → weaker value s) :
    reading.Meets start r weaker := by
  cases outcome : reading r with
  | ok value s =>
      obtain ⟨reaches, holds⟩ := meets.of_ok outcome
      rw [Meets, outcome]
      exact ⟨reaches, implies value s holds⟩
  | error error s =>
      rw [Meets, outcome]
      exact meets.of_error outcome

theorem Meets.reaching {reading : Reading α} (meets : reading.Meets start r done) :
    reading.Meets start r fun value s => start.Reaches s ∧ done value s := by
  cases outcome : reading r with
  | ok value s =>
      rw [Meets, outcome]
      exact ⟨(meets.of_ok outcome).1, meets.of_ok outcome⟩
  | error error s =>
      rw [Meets, outcome]
      exact meets.of_error outcome

theorem Meets.of_eq {reading : Reading α} {next : Reading α} {s : Reader}
    (same : reading r = next s) (meets : next.Meets start s done) :
    reading.Meets start r done := by
  rw [Meets, same]
  exact meets

theorem meets_pure {value : α} (reaches : start.Reaches r) (holds : done value r) :
    (pure value : Reading α).Meets start r done :=
  ⟨reaches, holds⟩

theorem meets_fail {error : ReadError} {token : Token} (isToken : error.token? = some token)
    (passes : start.Passes token r) : (fail error : Reading α).Meets start r done :=
  Or.inr ⟨token, isToken, passes⟩

theorem meets_get {next : Reader → Reading β} (meets : (next r).Meets start r after) :
    (get >>= next).Meets start r after :=
  meets

end

theorem any_meets (r : Reader) : any.Meets r r fun token s => r.rest = token :: s.rest ∧
    s.idx = r.idx + 1 := by
  obtain ⟨rest, idx⟩ := r
  cases rest with
  | nil => exact Or.inl ⟨rfl, Reader.Reaches.refl _, rfl⟩
  | cons token rest => exact ⟨(Reader.passes_cons token rest idx).reaches, rfl, rfl⟩

theorem code_meets (r : Reader) : code.Meets r r fun token s => r.Finds token s := by
  obtain ⟨rest, idx⟩ := r
  induction rest generalizing idx with
  | nil => exact Or.inl ⟨rfl, Reader.Reaches.refl _, rfl⟩
  | cons token rest ih =>
      have passes := Reader.passes_cons token rest idx
      cases isComment : token.isComment with
      | true =>
          apply Meets.of_eq (code_comment rest idx isComment)
          apply ((ih (idx + 1)).from passes.reaches).imp
          exact fun found s finds => finds.of_comment isComment
      | false =>
          rw [Meets, code_cons token rest idx isComment]
          exact ⟨passes.reaches, [], rfl, by simp, isComment, rfl⟩

/-- Passing over blocks goes through the tokens ahead and fails only at their end. -/
theorem blockRest_reaches (tokens : List Token) : ∀ depth idx : Nat,
    match blockRest depth idx tokens with
    | .ok _ s => Reader.Reaches ⟨tokens, idx⟩ s
    | .error error s => error = .noToken ∧ s = ⟨[], idx + tokens.length⟩ := by
  induction tokens with
  | nil => exact fun _ idx => ⟨rfl, rfl⟩
  | cons token tokens ih =>
      intro depth idx
      have reaches := (Reader.passes_cons token tokens idx).reaches
      have size : idx + 1 + tokens.length = idx + (token :: tokens).length := by
        rw [List.length_cons]
        omega
      have goOn (inner : Nat) : match blockRest inner (idx + 1) tokens with
          | .ok _ s => Reader.Reaches ⟨token :: tokens, idx⟩ s
          | .error error s =>
              error = .noToken ∧ s = ⟨[], idx + (token :: tokens).length⟩ := by
        have later := ih inner (idx + 1)
        rw [size] at later
        revert later
        cases blockRest inner (idx + 1) tokens with
        | ok value s => exact reaches.trans
        | error error s => exact id
      by_cases isStart : token.kind = .blockStart
      · simp only [blockRest_cons, isStart]
        exact goOn (depth + 1)
      · by_cases isEnd : token.kind = .blockEnd
        · cases depth with
          | zero =>
              simp only [blockRest_cons, isEnd]
              exact reaches
          | succ depth =>
              simp only [blockRest_cons, isEnd]
              exact goOn depth
        · rw [blockRest_other depth idx token tokens isStart isEnd]
          exact goOn depth

theorem skipBlock_meets (r : Reader) : skipBlock.Meets r r fun _ s => r.Leaves s := by
  have outcome := blockRest_reaches r.rest 0 r.idx
  rw [Meets, skipBlock_eq]
  cases skipped : blockRest 0 r.idx r.rest with
  | ok value s =>
      rw [skipped] at outcome
      exact ⟨outcome, Or.inl skipped⟩
  | error error s =>
      rw [skipped] at outcome
      obtain ⟨rfl, rfl⟩ := outcome
      exact Or.inl ⟨rfl, ⟨r.rest, (List.append_nil _).symm, rfl⟩, rfl⟩

theorem expect_meets (expected : Expected) (r : Reader) :
    (expect expected).Meets r r fun token s =>
      r.Finds token s ∧ expected.accepts token.kind = true := by
  apply (code_meets r).bind
  intro token s reaches finds
  split
  · rename_i accepted
    exact meets_pure reaches ⟨finds, accepted⟩
  · exact meets_fail rfl finds.passes

theorem expect_one_meets (kind : Token.Kind) (r : Reader) :
    (expect (.one kind)).Meets r r fun token s => r.Finds token s ∧ token.kind = kind := by
  apply (expect_meets (.one kind) r).imp
  rintro token s ⟨finds, accepted⟩
  exact ⟨finds, by simpa [Expected.accepts] using accepted⟩

end Reading

/-- The tokens with the value of an opening brace are those that open a block. -/
def BracesMark (tokens : List Token) : Prop :=
  ∀ token ∈ tokens, token.value = "\x7b" ↔ token.kind = .blockStart

namespace Reader

/-- `s` stands farther on in the tokens of `r`, and as many blocks are open there as at `r`, if
opening braces can be told by their value. -/
structure Steps (r s : Reader) : Prop where
  reaches : r.Reaches s
  level : BracesMark r.rest → r.Level s

theorem Reaches.bracesMark {r s : Reader} (reaches : r.Reaches s) (marks : BracesMark r.rest) :
    BracesMark s.rest := by
  obtain ⟨read, order, -⟩ := reaches
  intro token member
  exact marks token (by rw [order]; exact List.mem_append_right read member)

theorem Steps.trans {r s t : Reader} (first : r.Steps s) (second : s.Steps t) : r.Steps t :=
  ⟨first.reaches.trans second.reaches, fun marks =>
    (first.level marks).trans (second.level (first.reaches.bracesMark marks))⟩

theorem Finds.steps {r s : Reader} {token : Token} (finds : r.Finds token s)
    (notStart : token.kind ≠ .blockStart) (notEnd : token.kind ≠ .blockEnd) : r.Steps s :=
  ⟨finds.passes.reaches, fun _ => finds.level notStart notEnd⟩

theorem Finds.mem {r s : Reader} {token : Token} (finds : r.Finds token s) : token ∈ r.rest := by
  obtain ⟨comments, order, -⟩ := finds
  rw [order]
  simp

end Reader

namespace Reading

/-- A kind of token that is expected and that neither opens nor closes a block. -/
theorem expect_meets_steps (kind : Token.Kind) (r : Reader) (notStart : kind ≠ .blockStart)
    (notEnd : kind ≠ .blockEnd) :
    (expect (.one kind)).Meets r r fun token s => r.Passes token s ∧ r.Steps s := by
  apply (expect_one_meets kind r).imp
  rintro token s ⟨finds, rfl⟩
  exact ⟨finds.passes, finds.steps notStart notEnd⟩

end Reading

namespace Argument

open Reading

/-- A token of a default value other than an opening brace. -/
theorem steps_value {r s : Reader} {token : Token} (finds : r.Finds token s)
    (accepted : valueKinds.accepts token.kind = true) (notBrace : token.value ≠ "\x7b") :
    r.Steps s := by
  refine ⟨finds.passes.reaches, fun marks => finds.level ?_ ?_⟩
  · intro isStart
    exact notBrace ((marks token finds.mem).mpr isStart)
  · intro isEnd
    rw [isEnd] at accepted
    cases accepted

/-- The two braces of an empty block. -/
theorem steps_emptyBlock {r s t : Reader} {token stop : Token} (finds : r.Finds token s)
    (isBrace : token.value = "\x7b") (closes : s.Finds stop t) (isEnd : stop.kind = .blockEnd) :
    r.Steps t := by
  refine ⟨finds.passes.reaches.trans closes.passes.reaches, fun marks => ?_⟩
  exact finds.level_block ((marks token finds.mem).mp isBrace) (closes.leaves isEnd)

theorem defaultValueFrom_meets (n : Nat) : ∀ (value : String) (r : Reader), r.rest.length < n →
    (defaultValueFrom n value).Meets r r fun found s => r.Passes found.2 s ∧ r.Steps s := by
  induction n with
  | zero => intro value r enough; omega
  | succ n ih =>
      intro value r enough
      rw [defaultValueFrom]
      apply (expect_meets valueKinds r).bind
      rintro token s reaches ⟨finds, accepted⟩
      have shorter := finds.passes.length_lt
      -- The rest of the value follows a part that has been passed.
      have goOn (longer : String) (t : Reader) (steps : r.Steps t)
          (bound : t.rest.length ≤ s.rest.length) :
          (defaultValueFrom n longer).Meets r t fun found u =>
            r.Passes found.2 u ∧ r.Steps u := by
        apply ((ih longer t (by omega)).from steps.reaches).imp
        rintro found u ⟨passes, later⟩
        exact ⟨steps.reaches.passes passes, steps.trans later⟩
      split
      · rename_i isStop
        have notBrace : token.value ≠ "\x7b" := by
          intro isBrace
          rw [isBrace] at isStop
          revert isStop
          decide
        exact meets_pure reaches ⟨finds.passes, steps_value finds accepted notBrace⟩
      · split
        · rename_i isBrace
          apply ((expect_one_meets .blockEnd s).from reaches).bind
          rintro stop t onward ⟨closes, isEnd⟩
          exact goOn _ t (steps_emptyBlock finds isBrace closes isEnd)
            (Nat.le_of_lt closes.passes.length_lt)
        · rename_i notBrace
          have first := steps_value finds accepted notBrace
          split
          · apply ((expect_meets_steps .arrayEnd s (by decide) (by decide)).from reaches).bind
            rintro stop t onward ⟨passes, second⟩
            exact goOn _ t (first.trans second) (Nat.le_of_lt passes.length_lt)
          · exact goOn _ s first (Nat.le_refl _)

/-- The type behind a colon, if the token behind an argument is one. -/
def behindValue (valued : Argument) (stop : Token) : Reading (Argument × Token) :=
  if stop.value = ":" then do
    let type ← Reading.expect (.one .element)
    let stop ← Reading.expect (.one .char)
    pure ({ valued with type := type.value }, stop)
  else pure (valued, stop)

/-- What stands behind the name of an argument, up to the end of the argument. -/
def behindName (named : Argument) : Reading (Argument × Token) :=
  Reading.expect (.one .char) >>= fun mark =>
    if mark.value = "=" then
      get >>= fun (r : Reader) => defaultValueFrom (r.rest.length + 1) "" >>= fun found =>
        behindValue { named with defaultValue := some found.1 } found.2
    else behindValue named mark

theorem readFrom_eq (typed isSpread : Bool) (first : Token) :
    readFrom typed isSpread first =
      if typed then
        Reading.expect (.one .element) >>= fun name =>
          behindName { name := name.value, type := first.value }
      else behindName { name := first.value, isSpread } := by
  cases typed <;> rfl

theorem behindValue_meets (valued : Argument) (stop : Token) (start r : Reader)
    (passes : start.Passes stop r) (steps : start.Steps r) :
    (behindValue valued stop).Meets start r fun found s =>
      start.Passes found.2 s ∧ start.Steps s := by
  rw [behindValue]
  split
  · apply ((expect_meets_steps .element r (by decide) (by decide)).from steps.reaches).bind
    rintro type s reaches ⟨-, toType⟩
    apply ((expect_meets_steps .char s (by decide) (by decide)).from reaches).bind
    rintro next t onward ⟨toNext, behind⟩
    exact meets_pure onward ⟨reaches.passes toNext, (steps.trans toType).trans behind⟩
  · exact meets_pure steps.reaches ⟨passes, steps⟩

theorem behindName_meets (named : Argument) (r : Reader) :
    (behindName named).Meets r r fun found s => r.Passes found.2 s ∧ r.Steps s := by
  apply (expect_meets_steps .char r (by decide) (by decide)).bind
  rintro mark s reaches ⟨toMark, steps⟩
  split
  · apply meets_get
    apply ((defaultValueFrom_meets _ "" s (Nat.lt_succ_self _)).from reaches).bind
    rintro found t onward ⟨toStop, overValue⟩
    exact behindValue_meets _ _ r t (reaches.passes toStop) (steps.trans overValue)
  · exact behindValue_meets named mark r s toMark steps

theorem readFrom_meets (typed isSpread : Bool) (first : Token) (r : Reader) :
    (readFrom typed isSpread first).Meets r r fun found s =>
      r.Passes found.2 s ∧ r.Steps s := by
  rw [readFrom_eq]
  split
  · apply (expect_meets_steps .element r (by decide) (by decide)).bind
    rintro name s reaches ⟨-, steps⟩
    apply ((behindName_meets _ s).from reaches).imp
    rintro found t ⟨passes, behind⟩
    exact ⟨reaches.passes passes, steps.trans behind⟩
  · exact behindName_meets _ r

theorem listFrom_meets (typed : Bool) (n : Nat) : ∀ (isSpread : Bool) (first : Token) (r : Reader),
    r.rest.length < n → (listFrom typed n isSpread first).Meets r r fun _ s => r.Steps s := by
  induction n with
  | zero => intro isSpread first r enough; omega
  | succ n ih =>
      intro isSpread first r enough
      rw [listFrom]
      apply (readFrom_meets typed isSpread first r).bind
      rintro ⟨arg, stop⟩ s reaches ⟨passes, steps⟩
      have shorter := passes.length_lt
      have goOn (spread : Bool) (name : Token) (t : Reader) (onward : s.Steps t) :
          (listFrom typed n spread name >>= fun later => pure (arg :: later)).Meets r t
            fun _ u => r.Steps u := by
        have bound := onward.reaches.length_le
        have there := steps.trans onward
        apply ((ih spread name t (by omega)).from there.reaches).bind
        intro later u toEnd overLater
        exact meets_pure toEnd (there.trans overLater)
      dsimp only
      split
      · exact meets_pure reaches steps
      · split
        · exact meets_fail rfl passes
        · apply ((expect_meets (.oneOf [.element, .ellipses]) s).from reaches).bind
          rintro next t onward ⟨finds, accepted⟩
          have kindIs : next.kind = .element ∨ next.kind = .ellipses := by
            simpa [Expected.accepts] using accepted
          have toNext : s.Steps t := by
            apply finds.steps <;> rcases kindIs with kindIs | kindIs <;> rw [kindIs] <;> decide
          split
          · apply ((expect_meets_steps .element t (by decide) (by decide)).from onward).bind
            rintro name u farther ⟨-, toName⟩
            exact goOn true name u (toNext.trans toName)
          · exact goOn false next t toNext

theorem readList_meets (typed : Bool) (r : Reader) :
    (readList typed).Meets r r fun _ s => r.Steps s := by
  rw [readList]
  apply (code_meets r).bind
  intro first s reaches finds
  apply meets_get
  have goOn (spread : Bool) (name : Token) (t : Reader) (steps : r.Steps t)
      (bound : t.rest.length ≤ s.rest.length) :
      (listFrom typed (s.rest.length + 1) spread name).Meets r t fun _ u => r.Steps u := by
    apply ((listFrom_meets typed _ spread name t (by omega)).from steps.reaches).imp
    exact fun _ u later => steps.trans later
  split
  · rename_i closes
    simp only [Bool.and_eq_true, decide_eq_true_eq] at closes
    exact meets_pure reaches (finds.steps (by rw [closes.1]; decide) (by rw [closes.1]; decide))
  · split
    · rename_i isDots
      have toDots : r.Steps s := finds.steps (by rw [isDots]; decide) (by rw [isDots]; decide)
      apply ((expect_meets_steps .element s (by decide) (by decide)).from reaches).bind
      rintro name t onward ⟨passes, toName⟩
      exact goOn true name t (toDots.trans toName) (Nat.le_of_lt passes.length_lt)
    · split
      · rename_i isName
        exact goOn false first s (finds.steps (by rw [isName]; decide) (by rw [isName]; decide))
          (Nat.le_refl _)
      · exact meets_fail rfl finds.passes

end Argument

open Reading

theorem Property.read_meets (keyword : String) (r : Reader) :
    (Property.read keyword).Meets r r fun _ s => r.Steps s := by
  apply (expect_meets_steps .element r (by decide) (by decide)).bind
  rintro type s reaches ⟨-, toType⟩
  apply ((expect_meets_steps .element s (by decide) (by decide)).from reaches).bind
  rintro name t onward ⟨-, toName⟩
  exact meets_pure onward (toType.trans toName)

theorem Function.read_meets (r : Reader) : Function.read.Meets r r fun _ s => r.Steps s := by
  apply (expect_meets_steps .element r (by decide) (by decide)).bind
  rintro name s reaches ⟨-, toName⟩
  have opens : (expectValue (.one .char) "(").Meets r s fun _ t => r.Steps t := by
    apply ((expect_meets_steps .char s (by decide) (by decide)).from reaches).bind
    rintro paren t onward ⟨passes, toParen⟩
    split
    · exact meets_pure onward (toName.trans toParen)
    · exact meets_fail rfl (reaches.passes passes)
  apply opens.bind
  intro _ t onward steps
  apply ((Argument.readList_meets false t).from onward).bind
  intro args u farther overArgs
  exact meets_pure farther (steps.trans overArgs)

theorem Signal.read_meets (r : Reader) : Signal.read.Meets r r fun _ s => r.Steps s := by
  apply (expect_meets_steps .element r (by decide) (by decide)).bind
  rintro name s reaches ⟨-, toName⟩
  apply meets_get
  apply ((code_meets s).from reaches).bind
  intro token t onward finds
  split
  · rename_i opens
    simp only [Bool.and_eq_true, decide_eq_true_eq] at opens
    have toParen : s.Steps t := finds.steps (by rw [opens.1]; decide) (by rw [opens.1]; decide)
    apply ((Argument.readList_meets true t).from onward).bind
    intro args u farther overArgs
    exact meets_pure farther ((toName.trans toParen).trans overArgs)
  · -- What follows a signal without a list of arguments is left unread.
    exact ⟨reaches, toName⟩

namespace Enumerator

/-- The constant was the last of its block, or it ended inside of the block. -/
def Closes (ended : Bool) (r s : Reader) : Prop :=
  if ended then r.Leaves s else r.Level s

theorem Closes.after_level {ended : Bool} {r s t : Reader} (level : r.Level s)
    (closes : Closes ended s t) : Closes ended r t := by
  cases ended with
  | false => exact level.trans closes
  | true => exact level.leaves closes

theorem restFrom_meets (n : Nat) : ∀ (enumerator : Enumerator) (r : Reader), r.rest.length < n →
    (restFrom n enumerator).Meets r r fun found s => Closes found.2 r s := by
  induction n with
  | zero => intro enumerator r enough; omega
  | succ n ih =>
      intro enumerator r enough
      obtain ⟨rest, idx⟩ := r
      cases rest with
      | nil => exact ⟨Reader.Reaches.refl _, Reader.Level.refl _⟩
      | cons token rest =>
          apply Meets.of_eq (restFrom_cons n enumerator token rest idx)
          have reaches := (Reader.passes_cons token rest idx).reaches
          rw [List.length_cons] at enough
          have goOn (next : Enumerator) (t : Reader) (onward : Reader.Reaches ⟨rest, idx + 1⟩ t)
              (level : Reader.Level ⟨token :: rest, idx⟩ t) :
              (restFrom n next).Meets ⟨token :: rest, idx⟩ t fun found s =>
                Closes found.2 ⟨token :: rest, idx⟩ s := by
            have bound : t.rest.length ≤ rest.length := onward.length_le
            apply ((ih next t (by omega)).from (reaches.trans onward)).imp
            exact fun found s closes => closes.after_level level
          split
          · rename_i kindIs
            exact goOn _ _ (Reader.Reaches.refl _)
              (Reader.level_cons token rest idx (by rw [kindIs]; decide) (by rw [kindIs]; decide))
          · rename_i kindIs
            exact goOn _ _ (Reader.Reaches.refl _)
              (Reader.level_cons token rest idx (by rw [kindIs]; decide) (by rw [kindIs]; decide))
          · rename_i kindIs
            exact meets_pure reaches (Reader.leaves_end token rest idx kindIs)
          · rename_i kindIs
            have level : Reader.Level ⟨token :: rest, idx⟩ ⟨rest, idx + 1⟩ :=
              Reader.level_cons token rest idx (by rw [kindIs]; decide) (by rw [kindIs]; decide)
            split
            · exact meets_pure reaches level
            · split
              · apply ((expect_one_meets .element _).from reaches).bind
                rintro value t onward ⟨finds, valueKind⟩
                have passed := finds.level (by rw [valueKind]; decide) (by rw [valueKind]; decide)
                exact goOn _ t finds.passes.reaches (level.trans passed)
              · exact goOn _ _ (Reader.Reaches.refl _) level
          · exact meets_fail rfl (Reader.passes_cons token rest idx)

theorem read_meets (name : String) (r : Reader) :
    (read name).Meets r r fun found s => Closes found.2 r s := by
  apply meets_get
  exact restFrom_meets _ { name } r (Nat.lt_succ_self _)

end Enumerator

namespace Enumeration

theorem bodyFrom_meets (n : Nat) : ∀ (enumeration : Enumeration) (pending : Option Token)
    (last : Option Enumerator) (r : Reader), r.rest.length < n →
    (bodyFrom n enumeration pending last).Meets r r fun _ s => r.Leaves s := by
  induction n with
  | zero => intro enumeration pending last r enough; omega
  | succ n ih =>
      intro enumeration pending last r enough
      obtain ⟨rest, idx⟩ := r
      cases rest with
      | nil => exact ⟨Reader.Reaches.refl _, Reader.leaves_of_nil _ rfl⟩
      | cons token rest =>
          apply Meets.of_eq (bodyFrom_cons n enumeration pending last token rest idx)
          have reaches := (Reader.passes_cons token rest idx).reaches
          rw [List.length_cons] at enough
          have goOn (next : Enumeration) (note : Option Token) (constant : Option Enumerator)
              (t : Reader) (onward : Reader.Reaches ⟨rest, idx + 1⟩ t)
              (level : Reader.Level ⟨token :: rest, idx⟩ t) :
              (bodyFrom n next note constant).Meets ⟨token :: rest, idx⟩ t fun _ s =>
                Reader.Leaves ⟨token :: rest, idx⟩ s := by
            have bound : t.rest.length ≤ rest.length := onward.length_le
            apply ((ih next note constant t (by omega)).from (reaches.trans onward)).imp
            exact fun _ s leaves => level.leaves leaves
          have here (kind : Token.Kind) (kindIs : token.kind = kind) (notStart : kind ≠ .blockStart)
              (notEnd : kind ≠ .blockEnd) : Reader.Level ⟨token :: rest, idx⟩ ⟨rest, idx + 1⟩ :=
            Reader.level_cons token rest idx (kindIs ▸ notStart) (kindIs ▸ notEnd)
          split
          · rename_i kindIs
            split <;> exact goOn _ _ _ _ (Reader.Reaches.refl _)
              (here _ kindIs (by decide) (by decide))
          · rename_i kindIs
            exact goOn _ _ _ _ (Reader.Reaches.refl _) (here _ kindIs (by decide) (by decide))
          · rename_i kindIs
            exact meets_pure reaches (Reader.leaves_end token rest idx kindIs)
          · rename_i kindIs
            have level := here _ kindIs (by decide) (by decide)
            apply ((Enumerator.read_meets token.value ⟨rest, idx + 1⟩).reaching.from reaches).bind
            rintro ⟨enumerator, ended⟩ s farther ⟨onward, closes⟩
            cases ended with
            | true => exact meets_pure farther (level.leaves closes)
            | false => exact goOn _ _ _ s onward (level.trans closes)
          · rename_i kindIs
            split
            · exact goOn _ _ _ _ (Reader.Reaches.refl _) (here _ kindIs (by decide) (by decide))
            · exact meets_fail rfl (Reader.passes_cons token rest idx)
          · exact meets_fail rfl (Reader.passes_cons token rest idx)

theorem read_meets (r : Reader) : read.Meets r r fun _ s => r.Steps s := by
  apply (expect_meets_steps .element r (by decide) (by decide)).bind
  rintro name s reaches ⟨-, toName⟩
  apply ((expect_one_meets .blockStart s).from reaches).bind
  rintro start t onward ⟨finds, isStart⟩
  apply meets_get
  apply ((bodyFrom_meets _ _ none none t (Nat.lt_succ_self _)).reaching.from onward).imp
  rintro enumeration u ⟨overBody, leaves⟩
  refine toName.trans ⟨finds.passes.reaches.trans overBody, fun _ => ?_⟩
  exact finds.level_block isStart leaves

end Enumeration

namespace Element

theorem readMember_meets (keyword : Token) (comment : Option Token) (start r : Reader)
    (passes : start.Passes keyword r) :
    (readMember keyword comment).Meets start r fun _ s => r.Steps s := by
  have reaches := passes.reaches
  rw [readMember]
  dsimp only
  split
  · apply ((Property.read_meets keyword.value r).from reaches).bind
    exact fun _ s onward steps => meets_pure onward steps
  · split
    · apply ((Function.read_meets r).from reaches).bind
      exact fun _ s onward steps => meets_pure onward steps
    · split
      · apply ((Signal.read_meets r).from reaches).bind
        exact fun _ s onward steps => meets_pure onward steps
      · split
        · apply ((Enumeration.read_meets r).from reaches).bind
          exact fun _ s onward steps => meets_pure onward steps
        · exact meets_fail rfl passes

theorem openBlock_meets (r : Reader) :
    openBlock.Meets r r fun _ s => ∃ token, r.Finds token s ∧ token.kind = .blockStart := by
  apply (code_meets r).bind
  intro token s reaches finds
  split
  · rename_i isStart
    exact meets_pure reaches ⟨token, finds, isStart⟩
  · exact meets_fail rfl finds.passes

theorem readInlineInfo_meets (name : Token) (comment : Option Token) (r : Reader) :
    (readInlineInfo name comment).Meets r r fun _ s =>
      ∃ t token, r.Steps t ∧ t.Finds token s ∧ token.kind = .blockStart := by
  apply (expect_meets_steps .char r (by decide) (by decide)).bind
  rintro colon s reaches ⟨-, toColon⟩
  apply ((expect_meets_steps .element s (by decide) (by decide)).from reaches).bind
  rintro base t onward ⟨-, toBase⟩
  apply ((openBlock_meets t).from onward).bind
  rintro _ u farther ⟨token, finds, isStart⟩
  exact meets_pure farther ⟨t, token, toColon.trans toBase, finds, isStart⟩

/-- The value of an attribute whose name stands before these tokens. Comments may stand before
the character that is read as the colon. -/
def valueBehind (tokens : List Token) : Option Token :=
  match tokens.dropWhile Token.isComment with
  | colon :: value :: _ => if colon.kind = .char then some value else none
  | _ => none

theorem valueBehind_finds {r s t : Reader} {colon value : Token} (finds : r.Finds colon s)
    (isChar : colon.kind = .char) (next : s.rest = value :: t.rest) :
    valueBehind r.rest = some value := by
  obtain ⟨comments, order, areComments, isCode, -⟩ := finds
  have passed : r.rest.dropWhile Token.isComment = colon :: value :: t.rest := by
    rw [order, List.dropWhile_append_of_pos areComments,
      List.dropWhile_cons_of_neg (by simp [isCode]), next]
  rw [valueBehind, passed]
  exact if_pos isChar

theorem readAttribute_meets (name : Token) (comment : Option Token) (r : Reader) :
    (readAttribute name comment).Meets r r fun _ s =>
      (∀ value, valueBehind r.rest = some value → value.kind ≠ .blockEnd) → r.Level s := by
  apply (expect_one_meets .char r).bind
  rintro colon s reaches ⟨finds, isChar⟩
  have level : r.Level s := finds.level (by rw [isChar]; decide) (by rw [isChar]; decide)
  apply ((any_meets s).from reaches).bind
  rintro first t onward ⟨next, place⟩
  split
  · rename_i isStart
    apply ((skipBlock_meets t).from onward).bind
    intro _ u farther leaves
    refine meets_pure farther fun _ => level.trans ?_
    have opens : s.Finds first t :=
      ⟨[], next, by simp, by rw [Token.isComment, isStart]; rfl, place⟩
    exact opens.level_block isStart leaves
  · rename_i notStart
    refine meets_pure onward fun closed => level.trans ?_
    have notEnd := closed first (valueBehind_finds finds isChar next)
    have passed := Reader.level_cons first t.rest s.idx notStart notEnd
    rw [← next, ← place] at passed
    exact passed

end Element

end QmlDoc
