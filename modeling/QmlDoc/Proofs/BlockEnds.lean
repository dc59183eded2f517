import Mathlib.Data.List.Infix
import QmlDoc.Proofs.BodyTurns
import QmlDoc.Proofs.ReadSteps
import QmlDoc.Token.Arrange

set_option autoImplicit false

namespace QmlDoc

namespace Element

/-- An attribute at the front of the tokens does not take the end of a block for its value. -/
def OpenValue : List Token → Prop
  | [] => True
  | name :: rest =>
      name.kind = .attributeName → ∀ value ∈ valueBehind rest, value.kind ≠ .blockEnd

/-- The blocks of the tokens can be told by single tokens: exactly the tokens that open a block
have the value of an opening brace, and no end of a block stands right behind the colon of an
attribute. -/
structure ClearBlocks (tokens : List Token) : Prop where
  braces : BracesMark tokens
  values : ∀ tail ∈ tokens.tails, OpenValue tail

instance : DecidablePred OpenValue
  | [] => isTrue trivial
  | name :: rest => inferInstanceAs (Decidable (name.kind = .attributeName →
      ∀ value ∈ valueBehind rest, value.kind ≠ .blockEnd))

instance (tokens : List Token) : Decidable (ClearBlocks tokens) :=
  decidable_of_iff ((∀ token ∈ tokens, token.value = "\x7b" ↔ token.kind = .blockStart) ∧
      ∀ tail ∈ tokens.tails, OpenValue tail)
    ⟨fun ⟨braces, values⟩ => ⟨braces, values⟩, fun clear => ⟨clear.braces, clear.values⟩⟩

theorem ClearBlocks.of_reaches {r s : Reader} (clear : ClearBlocks r.rest)
    (reaches : r.Reaches s) : ClearBlocks s.rest := by
  refine ⟨reaches.bracesMark clear.braces, fun tail member => clear.values tail ?_⟩
  obtain ⟨read, order, -⟩ := reaches
  rw [List.mem_tails] at member ⊢
  rw [order]
  exact member.trans (List.suffix_append read s.rest)

/-- A body that was read from `r` on ends behind the end of its block, if it could be read. -/
def Body.Meets (body : Body) (r : Reader) : Prop :=
  match body.error with
  | none => r.Reaches body.reader ∧ (ClearBlocks r.rest → r.Leaves body.reader)
  | some error => error.Stops r body.reader

/-- A turn that ends a body stands behind its block; all others leave as many blocks open as
before. -/
def Turn.Leaves (start : Reader) : Turn → Reader → Prop
  | .ends _, s => start.Leaves s
  | .goesOn _ _, s => start.Level s

/-- One turn, where the bodies in it are known to end with their blocks. -/
theorem turnAt_meets {inside : Reading (List Element)} (nested : Bool) (pending : Option Token)
    (token : Token) (rest : List Token) (idx : Nat)
    (closes : ∀ s : Reader, s.rest.length ≤ rest.length →
      inside.Meets s s fun _ t => ClearBlocks s.rest → s.Leaves t) :
    (turnAt inside nested pending token).Meets ⟨token :: rest, idx⟩ ⟨rest, idx + 1⟩ fun turn s =>
      Reader.Reaches ⟨rest, idx + 1⟩ s ∧
        (ClearBlocks (token :: rest) → turn.Leaves ⟨token :: rest, idx⟩ s) := by
  have passes := Reader.passes_cons token rest idx
  have reaches := passes.reaches
  have stays := Reader.Reaches.refl ⟨rest, idx + 1⟩
  have level := Reader.level_cons token rest idx
  -- The body of a member: behind it as many blocks are open as at `t`, in front of its brace.
  have body (t s : Reader) (start : Token) (element : List Element → Element)
      (toBody : Reader.Reaches ⟨rest, idx + 1⟩ s) (finds : t.Finds start s)
      (isStart : start.kind = .blockStart)
      (toBrace : ClearBlocks (token :: rest) → Reader.Level ⟨token :: rest, idx⟩ t) :
      (inside >>= fun inner => pure (Turn.goesOn [element inner] none)).Meets
        ⟨token :: rest, idx⟩ s fun turn u => Reader.Reaches ⟨rest, idx + 1⟩ u ∧
          (ClearBlocks (token :: rest) → turn.Leaves ⟨token :: rest, idx⟩ u) := by
    have fromStart := reaches.trans toBody
    apply ((closes s toBody.length_le).reaching.from fromStart).bind
    rintro inner u reached ⟨overBody, leaves⟩
    refine Reading.meets_pure reached ⟨toBody.trans overBody, fun clear => ?_⟩
    exact (toBrace clear).trans (finds.level_block isStart (leaves (clear.of_reaches fromStart)))
  rw [turnAt]
  cases kindIs : token.kind <;> dsimp only <;> rw [kindIs] at level
  case keyword =>
      apply (readMember_meets token pending _ _ passes).bind
      intro made s reached steps
      refine Reading.meets_pure reached ⟨steps.reaches, fun clear => ?_⟩
      exact (level (by decide) (by decide)).trans (steps.level (reaches.bracesMark clear.braces))
  case attributeName =>
      apply ((readAttribute_meets token pending ⟨rest, idx + 1⟩).reaching.from reaches).bind
      rintro found s reached ⟨onward, behind⟩
      refine Reading.meets_pure reached ⟨onward, fun clear => ?_⟩
      have isOpen := clear.values (token :: rest) (by simp)
      exact (level (by decide) (by decide)).trans (behind (isOpen kindIs))
  case component =>
      split
      · apply ((openBlock_meets ⟨rest, idx + 1⟩).reaching.from reaches).bind
        rintro - s - ⟨onward, start, finds, isStart⟩
        exact body _ s start _ onward finds isStart fun _ => level (by decide) (by decide)
      · exact Reading.meets_pure reaches ⟨stays, fun _ => level (by decide) (by decide)⟩
  case inlineComponent =>
      apply ((readInlineInfo_meets token pending ⟨rest, idx + 1⟩).reaching.from reaches).bind
      rintro info s - ⟨onward, t, start, steps, finds, isStart⟩
      refine body t s start _ onward finds isStart fun clear => ?_
      exact (level (by decide) (by decide)).trans (steps.level (reaches.bracesMark clear.braces))
  case blockStart =>
      apply ((Reading.skipBlock_meets ⟨rest, idx + 1⟩).reaching.from reaches).bind
      rintro - s reached ⟨onward, leaves⟩
      refine Reading.meets_pure reached ⟨onward, fun _ => ?_⟩
      have opens : Reader.Finds ⟨token :: rest, idx⟩ token ⟨rest, idx + 1⟩ :=
        ⟨[], rfl, by simp, by rw [Token.isComment, kindIs]; rfl, rfl⟩
      exact opens.level_block kindIs leaves
  case blockEnd =>
      exact Reading.meets_pure reaches ⟨stays, fun _ => Reader.leaves_end token rest idx kindIs⟩
  -- Comments and the tokens that are passed.
  all_goals exact Reading.meets_pure reaches ⟨stays, fun _ => level (by decide) (by decide)⟩

theorem elementsFrom_meets (n : Nat) : ∀ (nested : Bool) (pending : Option Token) (r : Reader),
    r.rest.length < n →
    (elementsFrom n nested pending).Meets r r fun _ s => ClearBlocks r.rest → r.Leaves s := by
  induction n with
  | zero =>
      intro nested pending r enough
      omega
  | succ n ih =>
      intro nested pending r enough
      obtain ⟨rest, idx⟩ := r
      cases rest with
      | nil => exact ⟨Reader.Reaches.refl _, fun _ => Reader.leaves_of_nil _ rfl⟩
      | cons token rest =>
          rw [List.length_cons] at enough
          have closes (s : Reader) (bound : s.rest.length ≤ rest.length) :=
            ih true none s (by omega)
          apply Reading.Meets.of_eq (elementsFrom_cons n nested pending token rest idx)
          apply (turnAt_meets nested pending token rest idx closes).bind
          rintro (elements | ⟨elements, next⟩) s reached ⟨onward, leaves⟩
          · exact Reading.meets_pure reached leaves
          · have bound : s.rest.length ≤ rest.length := onward.length_le
            apply ((ih nested next s (by omega)).from reached).bind
            intro later t toEnd closed
            refine Reading.meets_pure toEnd fun clear => ?_
            exact (leaves clear).leaves (closed (clear.of_reaches reached))

theorem membersFrom_meets (n : Nat) (nested : Bool) (pending : Option Token) (r : Reader)
    (enough : r.rest.length < n) : (membersFrom n nested pending r).Meets r := by
  have meets := elementsFrom_meets n nested pending r enough
  rw [Reading.Meets, elementsFrom_eq, Body.result] at meets
  rw [Body.Meets]
  cases failed : (membersFrom n nested pending r).error <;> rw [failed] at meets <;> exact meets

/-- A body that can be read opens with a block and ends with it. -/
theorem readBody_meets (nested : Bool) (r : Reader) :
    let body := readBody nested r
    match body.error with
    | none => ∃ start s, r.Finds start s ∧ start.kind = .blockStart ∧ r.Reaches body.reader ∧
        (ClearBlocks r.rest → s.Leaves body.reader)
    | some error => error.Stops r body.reader := by
  have opens := openBlock_meets r
  dsimp only
  rw [readBody]
  cases opened : openBlock r with
  | error error s => exact opens.of_error opened
  | ok _ s =>
      obtain ⟨reaches, start, finds, isStart⟩ := opens.of_ok opened
      have meets := membersFrom_meets (s.rest.length + 1) nested none s (Nat.lt_succ_self _)
      rw [Body.Meets] at meets
      revert meets
      dsimp only
      cases (membersFrom (s.rest.length + 1) nested none s).error with
      | some error => exact fun stops => stops.from reaches
      | none =>
          rintro ⟨onward, leaves⟩
          refine ⟨start, s, finds, isStart, reaches.trans onward, fun clear => ?_⟩
          exact leaves (clear.of_reaches reaches)

end Element

/-- Inside of `depth` blocks and one more, tokens of the first `count` kinds are those up to the
end of the outermost block. -/
structure ClosesAfter (depth : Int) (kinds : List Token.Kind) (count : Nat) : Prop where
  within : count ≤ kinds.length
  closed : depth + blockBalance (kinds.take count) = -1
  first : ∀ fewer < count, 0 ≤ depth + blockBalance (kinds.take fewer)

theorem closesAfter_closed {kinds : List Token.Kind} {count : Nat} :
    ClosesAfter (-1) kinds count ↔ count = 0 := by
  constructor
  · intro closes
    by_contra later
    have early := closes.first 0 (by omega)
    rw [List.take_zero, blockBalance_nil] at early
    omega
  · rintro rfl
    exact ⟨Nat.zero_le _, by simp, by simp⟩

theorem closesAfter_nil {depth : Int} {count : Nat} (isOpen : 0 ≤ depth) :
    ¬ClosesAfter depth [] count := by
  intro closes
  have balance := closes.closed
  rw [List.take_nil, blockBalance_nil] at balance
  omega

theorem closesAfter_cons {depth : Int} {kind : Token.Kind} {kinds : List Token.Kind} {count : Nat}
    (isOpen : 0 ≤ depth) :
    ClosesAfter depth (kind :: kinds) count ↔
      ∃ fewer, count = fewer + 1 ∧ ClosesAfter (depth + blockBalance [kind]) kinds fewer := by
  have longer (some : Nat) : depth + blockBalance ((kind :: kinds).take (some + 1)) =
      depth + blockBalance [kind] + blockBalance (kinds.take some) := by
    rw [List.take_succ_cons, blockBalance_cons]
    omega
  constructor
  · intro closes
    cases count with
    | zero =>
        have balance := closes.closed
        rw [List.take_zero, blockBalance_nil] at balance
        omega
    | succ fewer =>
        refine ⟨fewer, rfl, Nat.le_of_succ_le_succ closes.within, ?_, ?_⟩
        · rw [← longer]
          exact closes.closed
        · intro some less
          rw [← longer]
          exact closes.first (some + 1) (by omega)
  · rintro ⟨fewer, rfl, closes⟩
    refine ⟨Nat.succ_le_succ closes.within, ?_, ?_⟩
    · rw [longer]
      exact closes.closed
    · intro some less
      cases some with
      | zero => simpa using isOpen
      | succ some =>
          rw [longer]
          exact closes.first some (by omega)

/-- Passing over the rest of a block succeeds exactly if the block is closed, and it stops behind
the token that closes it. -/
theorem Reading.blockRest_eq_ok_iff (tokens : List Token) : ∀ (depth idx : Nat) (s : Reader),
    blockRest depth idx tokens = .ok () s ↔
      ∃ count, ClosesAfter depth (tokens.map Token.kind) count ∧
        s = ⟨tokens.drop count, idx + count⟩ := by
  induction tokens with
  | nil =>
      intro depth idx s
      constructor
      · intro skipped
        cases skipped
      · rintro ⟨count, closes, -⟩
        exact absurd closes (closesAfter_nil (Int.natCast_nonneg depth))
  | cons token tokens ih =>
      intro depth idx s
      -- The rest of the tokens, when `inner` blocks are open behind the first.
      have goOn (inner : Nat) (level : (depth : Int) + blockBalance [token.kind] = inner) :
          blockRest inner (idx + 1) tokens = .ok () s ↔
            ∃ count, ClosesAfter depth ((token :: tokens).map Token.kind) count ∧
              s = ⟨(token :: tokens).drop count, idx + count⟩ := by
        rw [ih inner (idx + 1) s]
        constructor
        · rintro ⟨count, closes, rfl⟩
          refine ⟨count + 1, ?_, by rw [List.drop_succ_cons, Nat.add_assoc, Nat.add_comm 1]⟩
          rw [List.map_cons, closesAfter_cons (Int.natCast_nonneg depth), level]
          exact ⟨count, rfl, closes⟩
        · rintro ⟨count, closes, rfl⟩
          rw [List.map_cons, closesAfter_cons (Int.natCast_nonneg depth), level] at closes
          obtain ⟨fewer, rfl, closes⟩ := closes
          exact ⟨fewer, closes, by rw [List.drop_succ_cons, Nat.add_assoc, Nat.add_comm 1]⟩
      by_cases isStart : token.kind = .blockStart
      · simp only [blockRest_cons, isStart]
        exact goOn (depth + 1) (by simp [isStart, blockBalance])
      · by_cases isEnd : token.kind = .blockEnd
        · have closes : blockBalance [token.kind] = -1 := by
            rw [isEnd]
            rfl
          cases depth with
          | succ outer =>
              simp only [blockRest_cons, isEnd]
              exact goOn outer (by rw [closes]; omega)
          | zero =>
              have atOnce (count : Nat) :
                  ClosesAfter (0 : Nat) ((token :: tokens).map Token.kind) count ↔ count = 1 := by
                rw [List.map_cons, closesAfter_cons (Int.natCast_nonneg 0), closes]
                simp [closesAfter_closed]
              simp only [blockRest_cons, isEnd]
              constructor
              · intro skipped
                cases skipped
                exact ⟨1, (atOnce 1).mpr rfl, rfl⟩
              · rintro ⟨count, ends, rfl⟩
                rw [(atOnce count).mp ends]
                rfl
        · have level : blockBalance [token.kind] = 0 := by
            simp [blockBalance, isStart, isEnd]
          rw [blockRest_other depth idx token tokens isStart isEnd]
          exact goOn depth (by rw [level]; omega)

/-- How many blocks are open behind token `stop`, of those that tokens from `start` on open. -/
def openBlocks (tokens : List Token) (start stop : Nat) : Int :=
  blockBalance (((tokens.drop start).take (stop + 1 - start)).map Token.kind)

/-- Counted from token `start` on, token `stop` is the first behind which no block is open. -/
structure ClosesBlock (tokens : List Token) (start stop : Nat) : Prop where
  ordered : start ≤ stop
  within : stop < tokens.length
  closed : openBlocks tokens start stop = 0
  first : ∀ between < stop, start ≤ between → 0 < openBlocks tokens start between

instance (tokens : List Token) (start stop : Nat) : Decidable (ClosesBlock tokens start stop) :=
  decidable_of_iff (start ≤ stop ∧ stop < tokens.length ∧ openBlocks tokens start stop = 0 ∧
      ∀ between < stop, start ≤ between → 0 < openBlocks tokens start between)
    ⟨fun ⟨ordered, within, closed, first⟩ => ⟨ordered, within, closed, first⟩,
      fun closes => ⟨closes.ordered, closes.within, closes.closed, closes.first⟩⟩

theorem openBlocks_add {tokens : List Token} {start : Nat} {token : Token}
    (opens : tokens[start]? = some token) (isStart : token.kind = .blockStart) (count : Nat) :
    openBlocks tokens start (start + count) =
      1 + blockBalance (((tokens.drop (start + 1)).map Token.kind).take count) := by
  obtain ⟨within, isToken⟩ := List.getElem?_eq_some_iff.mp opens
  have size : start + count + 1 - start = count + 1 := by omega
  rw [openBlocks, size, List.drop_eq_getElem_cons within, isToken, List.take_succ_cons,
    List.map_cons, blockBalance_cons, isStart, List.map_take]
  rfl

theorem closesBlock_iff {tokens : List Token} {start stop : Nat} {token : Token}
    (opens : tokens[start]? = some token) (isStart : token.kind = .blockStart) :
    ClosesBlock tokens start stop ↔
      ∃ count, stop = start + count ∧
        ClosesAfter 0 ((tokens.drop (start + 1)).map Token.kind) count := by
  have within := (List.getElem?_eq_some_iff.mp opens).1
  have size : ((tokens.drop (start + 1)).map Token.kind).length = tokens.length - (start + 1) := by
    rw [List.length_map, List.length_drop]
  constructor
  · intro closes
    obtain ⟨count, rfl⟩ := Nat.exists_eq_add_of_le closes.ordered
    refine ⟨count, rfl, ?_, ?_, ?_⟩
    · have inside := closes.within
      omega
    · have balance := closes.closed
      rw [openBlocks_add opens isStart] at balance
      omega
    · intro fewer less
      have balance := closes.first (start + fewer) (by omega) (by omega)
      rw [openBlocks_add opens isStart] at balance
      omega
  · rintro ⟨count, rfl, closes⟩
    have inside := closes.within
    refine ⟨by omega, by omega, ?_, ?_⟩
    · have balance := closes.closed
      rw [openBlocks_add opens isStart]
      omega
    · intro between less ordered
      obtain ⟨fewer, rfl⟩ := Nat.exists_eq_add_of_le ordered
      have balance := closes.first fewer (by omega)
      rw [openBlocks_add opens isStart]
      omega

/-- The reader that has the first `count` tokens behind it. -/
def Reader.past (tokens : List Token) (count : Nat) : Reader :=
  ⟨tokens.drop count, count⟩

section

variable {tokens : List Token} {start : Nat} {token : Token}
  (opens : tokens[start]? = some token) (isStart : token.kind = .blockStart)

include opens isStart

theorem skipBlock_of_closesBlock {stop : Nat} (closes : ClosesBlock tokens start stop) :
    Reading.skipBlock (.past tokens (start + 1)) = .ok () (.past tokens (stop + 1)) := by
  obtain ⟨count, rfl, ends⟩ := (closesBlock_iff opens isStart).mp closes
  apply (Reading.blockRest_eq_ok_iff _ 0 (start + 1) _).mpr
  refine ⟨count, ends, ?_⟩
  have place : start + count + 1 = start + 1 + count := by omega
  rw [place]
  simp only [Reader.past, List.drop_drop]

theorem skipBlock_of_endless (endless : ∀ stop, ¬ClosesBlock tokens start stop) :
    Reading.skipBlock (.past tokens (start + 1)) =
      .error .noToken (.past tokens tokens.length) := by
  have within := (List.getElem?_eq_some_iff.mp opens).1
  have outcome := Reading.blockRest_reaches (tokens.drop (start + 1)) 0 (start + 1)
  change Reading.blockRest 0 (start + 1) (tokens.drop (start + 1)) = _
  cases skipped : Reading.blockRest 0 (start + 1) (tokens.drop (start + 1)) with
  | ok value s =>
      obtain ⟨count, ends, -⟩ := (Reading.blockRest_eq_ok_iff _ _ _ _).mp skipped
      exact absurd ((closesBlock_iff opens isStart).mpr ⟨count, rfl, ends⟩) (endless _)
  | error error s =>
      rw [skipped] at outcome
      obtain ⟨rfl, rfl⟩ := outcome
      have size : start + 1 + (tokens.drop (start + 1)).length = tokens.length := by
        rw [List.length_drop]
        omega
      rw [size, Reader.past, List.drop_length]

end

/-- The token that a reader finds, by its place among all tokens. -/
theorem Reader.Finds.past {tokens : List Token} {place : Nat} {token : Token} {s : Reader}
    (finds : (Reader.past tokens place).Finds token s) :
    ∃ start, place ≤ start ∧ tokens[start]? = some token ∧ s = .past tokens (start + 1) ∧
      ∀ i, place ≤ i → i < start → ∃ comment, tokens[i]? = some comment ∧
        comment.isComment = true := by
  obtain ⟨comments, order, areComments, -, idxIs⟩ := finds
  obtain ⟨rest, idx⟩ := s
  change tokens.drop place = comments ++ token :: rest at order
  have ahead (i : Nat) : tokens[place + i]? = (comments ++ token :: rest)[i]? := by
    rw [← order, List.getElem?_drop]
  refine ⟨place + comments.length, by omega, ?_, ?_, ?_⟩
  · rw [ahead]
    simp
  · have restIs : tokens.drop (place + comments.length + 1) = rest := by
      rw [Nat.add_assoc, ← List.drop_drop, order]
      simp
    rw [Reader.past, restIs]
    exact congrArg (Reader.mk rest) idxIs
  · intro i lower upper
    obtain ⟨offset, rfl⟩ := Nat.exists_eq_add_of_le lower
    have short : offset < comments.length := by omega
    refine ⟨comments[offset], ?_, areComments _ (List.getElem_mem short)⟩
    rw [ahead, List.getElem?_append_left short, List.getElem?_eq_getElem short]

namespace Element

theorem ClearBlocks.drop {tokens : List Token} (clear : ClearBlocks tokens) (count : Nat) :
    ClearBlocks (tokens.drop count) := by
  refine ⟨fun token member => clear.braces token (List.mem_of_mem_drop member), ?_⟩
  intro tail member
  apply clear.values tail
  rw [List.mem_tails] at member ⊢
  exact member.trans (List.drop_suffix count tokens)

/-- Passing over the block that token `start` opens gives the same as reading it did, where
`after` is the reader behind what was read. -/
structure SkipsAlike (tokens : List Token) (start : Nat) (after : Reader) : Prop where
  closed : ∀ stop, ClosesBlock tokens start stop → after = .past tokens (stop + 1) ∧
    Reading.skipBlock (.past tokens (start + 1)) = .ok () (.past tokens (stop + 1))
  endless : (∀ stop, ¬ClosesBlock tokens start stop) → after = .past tokens tokens.length ∧
    Reading.skipBlock (.past tokens (start + 1)) = .error .noToken (.past tokens tokens.length)

theorem skipsAlike_of_leaves {tokens : List Token} {start : Nat} {token : Token} {after : Reader}
    (opens : tokens[start]? = some token) (isStart : token.kind = .blockStart)
    (leaves : (Reader.past tokens (start + 1)).Leaves after) : SkipsAlike tokens start after := by
  constructor
  · intro stop closes
    have skipped := skipBlock_of_closesBlock opens isStart closes
    refine ⟨?_, skipped⟩
    rcases leaves with ends | ⟨-, stuck⟩
    · exact (EStateM.Result.ok.inj (ends.symm.trans skipped)).2
    · have same := (stuck 0).symm.trans skipped
      cases same
  · intro endless
    have failed := skipBlock_of_endless opens isStart endless
    refine ⟨?_, failed⟩
    rcases leaves with ends | ⟨-, stuck⟩
    · have same := ends.symm.trans failed
      cases same
    · exact (EStateM.Result.error.inj ((stuck 0).symm.trans failed)).2

/-- Reading a body and passing over it agree. A body that can be read opens with a block, behind
comments at most. If the block is closed, both stop behind the token that closes it. If not,
reading stops at the end of the tokens, and there passing over the block fails. -/
theorem readBody_ends (nested : Bool) (tokens : List Token) (place : Nat)
    (clear : ClearBlocks tokens) (read : (readBody nested (.past tokens place)).error = none) :
    ∃ start token, place ≤ start ∧ tokens[start]? = some token ∧ token.kind = .blockStart ∧
      (∀ i, place ≤ i → i < start → ∃ comment, tokens[i]? = some comment ∧
        comment.isComment = true) ∧
      SkipsAlike tokens start (readBody nested (.past tokens place)).reader := by
  have meets := readBody_meets nested (.past tokens place)
  simp only [read] at meets
  obtain ⟨token, s, finds, isStart, -, leaves⟩ := meets
  obtain ⟨start, ordered, opens, rfl, comments⟩ := finds.past
  have alike := skipsAlike_of_leaves opens isStart (leaves (clear.drop place))
  exact ⟨start, token, ordered, opens, isStart, comments, alike⟩

/-- A signal without arguments, an empty block as a default value, an enumeration and a nested
object. -/
theorem readBody_ends_item :
    let text := "Item \x7b\n  signal s\n  function f(a = \x7b\x7d) \x7b g() \x7d\n" ++
      "  enum E \x7b A \x7d\n  Row \x7b\n    x: 1\n  \x7d\n\x7d"
    let tokens := (Token.tokenize text).tokens
    ClearBlocks tokens ∧ (readBody true (.past tokens 1)).error = none ∧
      ClosesBlock tokens 1 28 ∧ SkipsAlike tokens 1 (readBody true (.past tokens 1)).reader := by
  intro text tokens
  have clear : ClearBlocks tokens := by decide +kernel
  have read : (readBody true (.past tokens 1)).error = none := by decide +kernel
  obtain ⟨start, -, behind, -, -, comments, alike⟩ := readBody_ends true tokens 1 clear read
  -- The second token is the brace, so no comment stands before it.
  have isStart : start = 1 := by
    by_contra other
    obtain ⟨comment, isSecond, isComment⟩ := comments 1 (Nat.le_refl 1) (by omega)
    have noComment : tokens[1]?.all (fun token => !token.isComment) = true := by decide +kernel
    rw [isSecond, Option.all_some, isComment] at noComment
    cases noComment
  exact ⟨clear, read, by decide +kernel, isStart ▸ alike⟩

end Element

end QmlDoc
