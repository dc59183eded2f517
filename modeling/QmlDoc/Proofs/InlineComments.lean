import QmlDoc.Proofs.ScanTiles
import QmlDoc.Token.Arrange

set_option autoImplicit false

namespace QmlDoc.Token

/-- A token that ends the search backwards from an inline comment. -/
def Kind.endsSearch : Kind → Bool
  | keyword | comment | inlineComment | importLine | pragmaLine => true
  | _ => false

/-- A token that ends the search is among the last nineteen of `done` and not the first. -/
def Anchored (done : List Token) : Prop :=
  ∃ i token, 1 ≤ i ∧ done.length < i + 20 ∧ done[i]? = some token ∧
    token.kind.endsSearch = true

theorem anchor?_eq_none_iff (tokens : List Token) :
    anchor? tokens = none ↔ ∀ token ∈ tokens, token.kind.endsSearch = false := by
  induction tokens with
  | nil => simp [anchor?]
  | cons token further ih =>
      rw [List.forall_mem_cons, ← ih, anchor?]
      cases kindIs : token.kind <;> simp [Kind.endsSearch]

theorem searched_behind (done : List Token) (comment : Token) (behind : 1 < done.length) :
    searched (done ++ [comment]) done.length = (done.drop (done.length - 20 + 1)).reverse := by
  rw [searched, if_neg (by omega), List.take_left]

theorem anchored_iff (done : List Token) :
    Anchored done ↔ ∃ token ∈ done.drop (done.length - 20 + 1), token.kind.endsSearch = true := by
  constructor
  · rintro ⟨i, token, notFirst, near, present, ends⟩
    refine ⟨token, ?_, ends⟩
    have place : done.length - 20 + 1 + (i - (done.length - 20 + 1)) = i := by omega
    apply List.mem_of_getElem? (i := i - (done.length - 20 + 1))
    rw [List.getElem?_drop, place, present]
  · rintro ⟨token, member, ends⟩
    obtain ⟨j, present⟩ := List.mem_iff_getElem?.mp member
    rw [List.getElem?_drop] at present
    exact ⟨done.length - 20 + 1 + j, token, by omega, by omega, present, ends⟩

theorem anchor?_isSome_iff (done : List Token) (comment : Token) (behind : 1 < done.length) :
    anchor? (searched (done ++ [comment]) done.length) ≠ none ↔ Anchored done := by
  rw [searched_behind done comment behind, anchored_iff, Ne, anchor?_eq_none_iff]
  simp

theorem liftAt_stranded (done : List Token) (comment : Token) (behind : 1 < done.length)
    (stranded : ¬Anchored done) :
    liftAt (done ++ [comment]) done.length = .error .noKeyword := by
  have missed : anchor? (searched (done ++ [comment]) done.length) = none := by
    by_contra met
    exact stranded ((anchor?_isSome_iff done comment behind).mp met)
  rw [liftAt, missed]

/-- Wherever the comment goes, no token is lost. -/
theorem liftAt_anchored (done : List Token) (comment : Token) (behind : 1 < done.length)
    (anchored : Anchored done) :
    ∃ lifted, liftAt (done ++ [comment]) done.length = .ok lifted ∧
      lifted.length = done.length + 1 := by
  have met := (anchor?_isSome_iff done comment behind).mpr anchored
  have stays : (done ++ [comment]).length = done.length + 1 := by simp
  rw [liftAt]
  cases nearest : anchor? (searched (done ++ [comment]) done.length) with
  | none => exact absurd nearest met
  | some found =>
      cases found with
      | barrier => exact ⟨_, rfl, stays⟩
      | keyword distance =>
          have last : (done ++ [comment])[done.length]? = some comment := by simp
          have reached : done.length - distance - 1 - 1 < (done ++ [comment]).length := by
            rw [stays]
            omega
          simp only [last, List.getElem?_eq_getElem reached]
          split
          · exact ⟨_, rfl, stays⟩
          · split
            · exact ⟨_, rfl, stays⟩
            · refine ⟨_, rfl, ?_⟩
              have erased : ((done ++ [comment]).eraseIdx done.length).length = done.length := by
                rw [List.length_eraseIdx_of_lt (by rw [stays]; omega), stays]
                rfl
              rw [List.length_insertIdx_of_le_length (by rw [erased]; omega), erased]

/-- The token as it is when its turn comes, before it may be moved. -/
def settled (done : List Token) (token : Token) : Token :=
  let named := if token.kind = .keyword && token.value = "property" && awaitsPropertyName done
    then { token with kind := .element } else token
  if named.isComment then named.outdent else named

/-- A token that needs no move, or whose move succeeds, passes the rest on. -/
theorem arrangeFrom_step (done : List Token) (token : Token)
    (placed : token.kind = .inlineComment → 1 < done.length → Anchored done) :
    ∃ reached, reached.length = done.length + 1 ∧
      ∀ ahead, arrangeFrom done (token :: ahead) = arrangeFrom reached ahead := by
  by_cases moves : token.kind = .inlineComment ∧ 1 < done.length
  · obtain ⟨lifted, lifts, size⟩ :=
      liftAt_anchored done (settled done token) moves.2 (placed moves.1 moves.2)
    refine ⟨lifted, size, fun ahead => ?_⟩
    have guard : (token.kind = .inlineComment && 1 < done.length : Bool) = true := by
      simpa using moves
    rw [settled] at lifts
    simp only [arrangeFrom, guard, lifts, if_true]
  · refine ⟨done ++ [settled done token], by simp, fun ahead => ?_⟩
    have guard : (token.kind = .inlineComment && 1 < done.length : Bool) = false := by
      simpa using moves
    simp only [arrangeFrom, guard, settled]
    rfl

theorem arrangeFrom_stranded (done : List Token) (token : Token)
    (inline : token.kind = .inlineComment) (behind : 1 < done.length)
    (stranded : ¬Anchored done) (ahead : List Token) :
    (arrangeFrom done (token :: ahead)).error = some .noKeyword := by
  have guard : (token.kind = .inlineComment && 1 < done.length : Bool) = true := by
    simp [inline, behind]
  have missed := liftAt_stranded done (settled done token) behind stranded
  rw [settled] at missed
  simp only [arrangeFrom, guard, missed, if_true]

/-- Each inline comment behind the second token finds its place among the tokens before it,
as they have been arranged. -/
def AllAnchored (done tokens : List Token) : Prop :=
  ∀ n comment, tokens[n]? = some comment → comment.kind = .inlineComment →
    1 < done.length + n → Anchored (arrangeFrom done (tokens.take n)).tokens

theorem allAnchored_cons (done reached : List Token) (token : Token) (ahead : List Token)
    (placed : token.kind = .inlineComment → 1 < done.length → Anchored done)
    (size : reached.length = done.length + 1)
    (step : ∀ ahead, arrangeFrom done (token :: ahead) = arrangeFrom reached ahead) :
    AllAnchored done (token :: ahead) ↔ AllAnchored reached ahead := by
  constructor
  · intro all n comment present inline behind
    have here := all (n + 1) comment present inline (by omega)
    rwa [List.take_succ_cons, step] at here
  · intro all n comment present inline behind
    cases n with
    | zero =>
        obtain rfl : token = comment := Option.some.inj present
        exact placed inline behind
    | succ n =>
        rw [List.take_succ_cons, step]
        exact all n comment present inline (by omega)

/-- Arranging succeeds if every inline comment finds its place, and otherwise fails for want of
a keyword. -/
theorem arrangeFrom_error (done tokens : List Token) :
    (AllAnchored done tokens ∧ (arrangeFrom done tokens).error = none) ∨
      (¬AllAnchored done tokens ∧ (arrangeFrom done tokens).error = some .noKeyword) := by
  induction tokens generalizing done with
  | nil =>
      left
      refine ⟨?_, rfl⟩
      intro n comment present
      cases present
  | cons token ahead ih =>
      by_cases placed : token.kind = .inlineComment → 1 < done.length → Anchored done
      · obtain ⟨reached, size, step⟩ := arrangeFrom_step done token placed
        rw [allAnchored_cons done reached token ahead placed size step, step]
        exact ih reached
      · right
        have stranded : token.kind = .inlineComment ∧ 1 < done.length ∧ ¬Anchored done := by
          simpa using placed
        obtain ⟨inline, behind, far⟩ := stranded
        refine ⟨fun all => ?_, arrangeFrom_stranded done token inline behind far ahead⟩
        exact far (all 0 token rfl inline behind)

/-- Every text can be read to its end, so that all its tokens are arranged. -/
theorem tokenize_eq (text : String) :
    tokenize text = arrange (Scanner.ofText text).scan.tokens := by
  have complete := (Scanner.scan_reads (Scanner.standsIn_ofText text)).1
  rw [tokenize, Scanner.tokenize]
  simp only [complete, if_true, List.nil_append]

/-- The tokens of a text can be arranged exactly if each inline comment behind the second token
has a keyword, a comment or a header line among the nineteen tokens before it, the first of all
apart, as these have been arranged when its turn comes. Nothing else can go wrong. -/
theorem tokenize_error (text : String) :
    let tokens := (Scanner.ofText text).scan.tokens
    ((tokenize text).error = none ↔
      ∀ n comment, tokens[n]? = some comment → comment.kind = .inlineComment → 1 < n →
        Anchored (arrange (tokens.take n)).tokens) ∧
      ((tokenize text).error ≠ none → (tokenize text).error = some .noKeyword) := by
  intro tokens
  have condition : AllAnchored [] tokens ↔
      ∀ n comment, tokens[n]? = some comment → comment.kind = .inlineComment → 1 < n →
        Anchored (arrange (tokens.take n)).tokens := by
    simp only [AllAnchored, List.length_nil, Nat.zero_add, arrange]
  rw [show tokenize text = arrangeFrom [] tokens from tokenize_eq text, ← condition]
  rcases arrangeFrom_error [] tokens with ⟨all, succeeds⟩ | ⟨notAll, fails⟩
  · simp [all, succeeds]
  · simp [notAll, fails]

/-- An inline comment behind an attribute, with no keyword before it. -/
theorem tokenize_error_attribute :
    (tokenize "Item \x7b\n    width: 10 ///< the width\n\x7d").error = some .noKeyword := by
  decide +kernel

end QmlDoc.Token
