import QmlDoc.Proofs.Reading

set_option autoImplicit false

namespace QmlDoc

/-- The number of blocks that tokens of these kinds open, less the number that they
close. -/
def blockBalance (kinds : List Token.Kind) : Int :=
  kinds.count .blockStart - kinds.count .blockEnd

/-- Every block that is closed was opened before, and every one that is opened is closed. -/
def BlocksMatch (kinds : List Token.Kind) : Prop :=
  blockBalance kinds = 0 ∧ ∀ count, count ≤ kinds.length → 0 ≤ blockBalance (kinds.take count)

instance (kinds : List Token.Kind) : Decidable (BlocksMatch kinds) :=
  inferInstanceAs (Decidable (_ ∧ _))

@[simp] theorem blockBalance_nil : blockBalance [] = 0 := rfl

theorem blockBalance_cons (kind : Token.Kind) (kinds : List Token.Kind) :
    blockBalance (kind :: kinds) = blockBalance [kind] + blockBalance kinds := by
  simp only [blockBalance, List.count_cons, List.count_nil]
  omega

/-- The rest of a block among the tokens ahead, `depth` blocks inside of it being open. -/
def Reading.blockRest (depth idx : Nat) (tokens : List Token) :
    EStateM.Result ReadError Reader Unit :=
  Reading.blockFrom depth tokens ⟨tokens, idx⟩

theorem Reading.skipBlock_eq (r : Reader) :
    Reading.skipBlock r = Reading.blockRest 0 r.idx r.rest := rfl

theorem Reading.blockRest_cons (depth idx : Nat) (token : Token) (rest : List Token) :
    Reading.blockRest depth idx (token :: rest) =
      match token.kind, depth with
      | .blockStart, _ => Reading.blockRest (depth + 1) (idx + 1) rest
      | .blockEnd, 0 => .ok () ⟨rest, idx + 1⟩
      | .blockEnd, outer + 1 => Reading.blockRest outer (idx + 1) rest
      | _, _ => Reading.blockRest depth (idx + 1) rest := by
  rw [blockRest, blockFrom, any_bind]
  cases token.kind <;> cases depth <;> rfl

theorem Reading.blockRest_other (depth idx : Nat) (token : Token) (rest : List Token)
    (notStart : token.kind ≠ .blockStart) (notEnd : token.kind ≠ .blockEnd) :
    Reading.blockRest depth idx (token :: rest) = Reading.blockRest depth (idx + 1) rest := by
  cases kindIs : token.kind <;> simp_all only [Reading.blockRest_cons, ne_eq, not_true_eq_false]

/-- Passing over the rest of a block, `depth` blocks inside of it being open, when the
tokens before `stop` close these blocks and all that they open themselves. -/
theorem Reading.blockRest_of_balance (tokens : List Token) (stop : Token) (rest : List Token)
    (ends : stop.kind = .blockEnd) : ∀ depth idx : Nat,
    (depth : Int) + blockBalance (tokens.map Token.kind) = 0 →
    (∀ count, count ≤ tokens.length →
      0 ≤ depth + blockBalance ((tokens.map Token.kind).take count)) →
    Reading.blockRest depth idx (tokens ++ stop :: rest) =
      .ok () ⟨rest, idx + tokens.length + 1⟩ := by
  induction tokens with
  | nil =>
      intro depth idx total _
      have closed : depth = 0 := by
        simp only [List.map_nil, blockBalance_nil] at total
        omega
      subst closed
      simp only [List.nil_append, Reading.blockRest_cons, ends, List.length_nil, Nat.add_zero]
  | cons token tokens ih =>
      intro depth idx total opened
      have step (inner : Nat) (same : (inner : Int) = depth + blockBalance [token.kind]) :
          Reading.blockRest inner (idx + 1) (tokens ++ stop :: rest) =
            .ok () ⟨rest, idx + (token :: tokens).length + 1⟩ := by
        rw [ih inner (idx + 1)]
        · simp only [List.length_cons, Nat.add_assoc, Nat.add_comm 1]
        · rw [List.map_cons, blockBalance_cons] at total
          omega
        · intro count bound
          have longer := opened (count + 1) (by rw [List.length_cons]; omega)
          rw [List.map_cons, List.take_succ_cons, blockBalance_cons] at longer
          omega
      have nonneg := opened 1 (by rw [List.length_cons]; omega)
      rw [List.map_cons, List.take_succ_cons, List.take_zero] at nonneg
      by_cases isStart : token.kind = .blockStart
      · simp only [List.cons_append, Reading.blockRest_cons, isStart]
        exact step (depth + 1) (by simp [isStart, blockBalance])
      · by_cases isEnd : token.kind = .blockEnd
        · have closes : blockBalance [token.kind] = -1 := by
            rw [isEnd]
            rfl
          have deeper : 1 ≤ depth := by
            rw [closes] at nonneg
            omega
          obtain ⟨outer, rfl⟩ : ∃ outer, depth = outer + 1 := ⟨depth - 1, by omega⟩
          simp only [List.cons_append, Reading.blockRest_cons, isEnd]
          exact step outer (by omega)
        · have level : blockBalance [token.kind] = 0 := by
            simp [blockBalance, isStart, isEnd]
          rw [List.cons_append, Reading.blockRest_other _ _ _ _ isStart isEnd]
          exact step depth (by omega)

/-- A block whose inner blocks match is passed over up to its own end. -/
theorem Reading.skipBlock_of_match (tokens : List Token) (stop : Token) (rest : List Token)
    (idx : Nat) (inner : BlocksMatch (tokens.map Token.kind)) (ends : stop.kind = .blockEnd) :
    Reading.skipBlock ⟨tokens ++ stop :: rest, idx⟩ = .ok () ⟨rest, idx + tokens.length + 1⟩ := by
  rw [Reading.skipBlock_eq]
  apply Reading.blockRest_of_balance tokens stop rest ends 0 idx
  · simpa using inner.1
  · intro count bound
    simpa using inner.2 count (by simpa using bound)

end QmlDoc
