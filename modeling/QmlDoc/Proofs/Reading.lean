import QmlDoc.Token.Reader

set_option autoImplicit false

namespace QmlDoc.Reading

variable {α β γ : Type}

theorem run_bind (reading : Reading α) (next : α → Reading β) (r : Reader) :
    (reading >>= next) r =
      match reading r with
      | .ok value s => next value s
      | .error error s => .error error s := by
  change (reading.bind next) r = _
  induction reading generalizing r with
  | done value => rfl
  | fail error => rfl
  | take following ih =>
      obtain ⟨rest, idx⟩ := r
      cases rest with
      | nil => rfl
      | cons token rest => exact ih token ⟨rest, idx + 1⟩
  | look following ih => exact ih r r
  | put place following ih => exact ih place

theorem bind_of_ok {first : Reading α} {r after : Reader} {value : α}
    (read : first r = .ok value after) (next : α → Reading β) :
    (first >>= next) r = next value after := by
  rw [run_bind, read]

theorem bind_of_error {first : Reading α} {r after : Reader} {error : ReadError}
    (failed : first r = .error error after) (next : α → Reading β) :
    (first >>= next) r = .error error after := by
  rw [run_bind, failed]

theorem bind_done (reading : Reading α) : reading.bind done = reading := by
  induction reading with
  | done value => rfl
  | fail error => rfl
  | take next ih => exact congrArg take (funext ih)
  | look next ih => exact congrArg look (funext ih)
  | put place next ih => exact congrArg (put place) ih

theorem bind_bind (reading : Reading α) (next : α → Reading β) (later : β → Reading γ) :
    (reading.bind next).bind later = reading.bind fun value => (next value).bind later := by
  induction reading with
  | done value => rfl
  | fail error => rfl
  | take next ih => exact congrArg take (funext ih)
  | look next ih => exact congrArg look (funext ih)
  | put place next ih => exact congrArg (put place) ih

instance : LawfulMonad Reading :=
  .mk' Reading bind_done (fun _ _ => rfl) bind_bind

theorem pure_apply (value : α) (r : Reader) : (pure value : Reading α) r = .ok value r := rfl

theorem bind_eq_ok_iff {first : Reading α} {next : α → Reading β} {value : β} {r s : Reader} :
    (first >>= next) r = .ok value s ↔
      ∃ found t, first r = .ok found t ∧ next found t = .ok value s := by
  rw [run_bind]
  cases first r with
  | error error t => simp
  | ok found t =>
      constructor
      · exact fun read => ⟨found, t, rfl, read⟩
      · rintro ⟨_, _, same, read⟩
        cases same
        exact read

theorem pure_eq_ok_iff {value found : α} {r s : Reader} :
    (pure found : Reading α) r = .ok value s ↔ found = value ∧ r = s := by
  rw [pure_apply, EStateM.Result.ok.injEq]

theorem map_eq_ok_iff {f : α → β} {reading : Reading α} {value : β} {r s : Reader} :
    (f <$> reading) r = .ok value s ↔ ∃ found, reading r = .ok found s ∧ f found = value := by
  rw [map_eq_pure_bind, bind_eq_ok_iff]
  simp only [pure_eq_ok_iff]
  constructor
  · rintro ⟨found, t, read, made, rfl⟩
    exact ⟨found, read, made⟩
  · rintro ⟨found, read, made⟩
    exact ⟨found, s, read, made, rfl⟩

/-- What follows a reader matters only where it succeeds. -/
theorem bind_congr_at {first : Reading α} {next other : α → Reading β} {r : Reader}
    (same : ∀ value s, first r = .ok value s → next value s = other value s) :
    (first >>= next) r = (first >>= other) r := by
  rw [run_bind, run_bind]
  cases outcome : first r with
  | ok value s => exact same value s outcome
  | error error s => rfl

theorem get_bind (next : Reader → Reading β) (r : Reader) : (get >>= next) r = next r r := rfl

theorem any_bind (next : Token → Reading β) (token : Token) (rest : List Token) (idx : Nat) :
    (any >>= next) ⟨token :: rest, idx⟩ = next token ⟨rest, idx + 1⟩ := rfl

/-- Two readers over the same tokens differ by their place only. -/
theorem ok_at (value : α) (rest : List Token) {idx place : Nat} (same : idx = place) :
    (EStateM.Result.ok value ⟨rest, idx⟩ : EStateM.Result ReadError Reader α) =
      .ok value ⟨rest, place⟩ := by
  rw [same]

theorem code_comment {comment : Token} (rest : List Token) (idx : Nat)
    (isComment : comment.isComment = true) :
    code ⟨comment :: rest, idx⟩ = code ⟨rest, idx + 1⟩ := by
  change codeFrom (comment :: rest) _ = _
  rw [codeFrom, any_bind, if_pos isComment]
  rfl

theorem code_cons (token : Token) (rest : List Token) (idx : Nat)
    (isCode : token.isComment = false) :
    code ⟨token :: rest, idx⟩ = .ok token ⟨rest, idx + 1⟩ := by
  change codeFrom (token :: rest) _ = _
  rw [codeFrom, any_bind, if_neg (by simp [isCode])]
  rfl

/-- The comments before a token are passed. -/
theorem code_comments (comments : List Token) (token : Token) (rest : List Token) (idx : Nat)
    (areComments : ∀ comment ∈ comments, comment.isComment = true)
    (isCode : token.isComment = false) :
    code ⟨comments ++ token :: rest, idx⟩ = .ok token ⟨rest, idx + comments.length + 1⟩ := by
  induction comments generalizing idx with
  | nil => exact code_cons token rest idx isCode
  | cons comment comments ih =>
      rw [List.forall_mem_cons] at areComments
      rw [List.cons_append, code_comment _ idx areComments.1, ih (idx + 1) areComments.2]
      exact ok_at _ _ (by rw [List.length_cons]; omega)

theorem expect_cons (expected : Expected) (token : Token) (rest : List Token) (idx : Nat)
    (isCode : token.isComment = false) (accepted : expected.accepts token.kind = true) :
    expect expected ⟨token :: rest, idx⟩ = .ok token ⟨rest, idx + 1⟩ := by
  rw [expect, bind_of_ok (code_cons token rest idx isCode), if_pos accepted]
  rfl

theorem expect_kind (kind : Token.Kind) (token : Token) (rest : List Token) (idx : Nat)
    (kindIs : token.kind = kind) (isCode : kind.isComment = false) :
    expect (.one kind) ⟨token :: rest, idx⟩ = .ok token ⟨rest, idx + 1⟩ :=
  expect_cons _ token rest idx (by rw [Token.isComment, kindIs, isCode])
    (by simp [Expected.accepts, kindIs])

theorem expectValue_kind (kind : Token.Kind) (value : String) (token : Token) (rest : List Token)
    (idx : Nat) (kindIs : token.kind = kind) (isCode : kind.isComment = false)
    (valueIs : token.value = value) :
    expectValue (.one kind) value ⟨token :: rest, idx⟩ = .ok token ⟨rest, idx + 1⟩ := by
  rw [expectValue, bind_of_ok (expect_kind kind token rest idx kindIs isCode), if_pos valueIs]
  rfl

end QmlDoc.Reading
