import QmlDoc.Element.Reader
import QmlDoc.Proofs.Reading

set_option autoImplicit false

namespace QmlDoc

namespace Element

/-- The outcome of a body without the elements that an error leaves. -/
def Body.result (body : Body) : EStateM.Result ReadError Reader (List Element) :=
  match body.error with
  | none => .ok body.elements body.reader
  | some error => .error error body.reader

theorem elementsFrom_eq (n : Nat) : ∀ (nested : Bool) (pending : Option Token) (r : Reader),
    elementsFrom n nested pending r = (membersFrom n nested pending r).result := by
  induction n with
  | zero => exact fun _ _ _ => rfl
  | succ n ih =>
      intro nested pending r
      rw [elementsFrom, membersFrom, Reading.run_bind]
      cases readTurn (elementsFrom n true none) nested pending r with
      | error error s => rfl
      | ok turn s =>
          cases turn with
          | ends elements => rfl
          | goesOn elements next =>
              dsimp only
              rw [Reading.run_bind, ih, Body.result, Body.result, Body.after]
              dsimp only
              cases (membersFrom n nested next s).error <;> rfl

/-- A round where a token is left. -/
theorem elementsFrom_cons (n : Nat) (nested : Bool) (pending : Option Token) (token : Token)
    (rest : List Token) (idx : Nat) :
    elementsFrom (n + 1) nested pending ⟨token :: rest, idx⟩ =
      (turnAt (elementsFrom n true none) nested pending token >>= fun
        | .ends elements => pure elements
        | .goesOn elements pending => do
            pure (elements ++ (← elementsFrom n nested pending))) ⟨rest, idx + 1⟩ :=
  rfl

theorem elementsFrom_eq_ok_iff {n : Nat} {nested : Bool} {pending : Option Token} {r s : Reader}
    {elements : List Element} : elementsFrom n nested pending r = .ok elements s ↔
      membersFrom n nested pending r = ⟨elements, none, s⟩ := by
  rw [elementsFrom_eq, Body.result]
  obtain ⟨found, error, t⟩ := membersFrom n nested pending r
  cases error <;> simp

section

variable {inside : Reading (List Element)} {nested : Bool} {pending : Option Token} {token : Token}
  {r s : Reader}

theorem turnAt_comment (isComment : token.isComment = true) :
    turnAt inside nested pending token r = .ok (.goesOn (ofPending pending) (some token)) r := by
  rw [Token.isComment] at isComment
  cases kindIs : token.kind <;> simp_all [Token.Kind.isComment, turnAt, Reading.pure_apply]

theorem turnAt_keyword (kindIs : token.kind = .keyword) {made : Option Element}
    (read : readMember token pending r = .ok made s) :
    turnAt inside nested pending token r = .ok (.goesOn made.toList none) s := by
  simp only [turnAt, kindIs, Reading.bind_of_ok read, Reading.pure_apply]

theorem turnAt_attribute (kindIs : token.kind = .attributeName) {found : Element}
    (read : readAttribute token pending r = .ok found s) :
    turnAt inside nested pending token r = .ok (.goesOn [found] none) s := by
  simp only [turnAt, kindIs, Reading.bind_of_ok read, Reading.pure_apply]

theorem turnAt_object (kindIs : token.kind = .component) {t : Reader} {inner : List Element}
    (opened : openBlock r = .ok () t) (read : inside t = .ok inner s) :
    turnAt inside true pending token r = .ok (.goesOn
      [component { name := token.value, comment := pending.map Token.value } inner] none) s := by
  simp only [turnAt, kindIs, if_true, Reading.bind_of_ok opened, Reading.bind_of_ok read,
    Reading.pure_apply]

theorem turnAt_inlineType (kindIs : token.kind = .inlineComponent) {info : TypeInfo} {t : Reader}
    {inner : List Element} (found : readInlineInfo token pending r = .ok info t)
    (read : inside t = .ok inner s) :
    turnAt inside nested pending token r = .ok (.goesOn [inlineType info inner] none) s := by
  simp only [turnAt, kindIs, Reading.bind_of_ok found, Reading.bind_of_ok read,
    Reading.pure_apply]

theorem turnAt_block (kindIs : token.kind = .blockStart)
    (skipped : Reading.skipBlock r = .ok () s) :
    turnAt inside nested pending token r = .ok (.goesOn [] pending) s := by
  simp only [turnAt, kindIs, Reading.bind_of_ok skipped, Reading.pure_apply]

theorem turnAt_end (kindIs : token.kind = .blockEnd) :
    turnAt inside nested pending token r = .ok (.ends (ofPending pending)) r := by
  simp only [turnAt, kindIs, Reading.pure_apply]

/-- Tokens that mean nothing in a body by themselves. Without `nested` the name of an object is one
of them. -/
def isIdle (nested : Bool) : Token.Kind → Bool
  | .component => !nested
  | .string | .element | .arrayStart | .arrayEnd | .char | .importLine | .pragmaLine
  | .ellipses => true
  | _ => false

theorem turnAt_idle (idle : isIdle nested token.kind = true) :
    turnAt inside nested pending token r = .ok (.goesOn [] pending) r := by
  cases kindIs : token.kind <;> simp_all [turnAt, isIdle, Reading.pure_apply]

end

section

variable {n : Nat} {nested : Bool} {pending : Option Token} {token : Token} {rest : List Token}
  {idx : Nat}

theorem membersFrom_cons : membersFrom (n + 1) nested pending ⟨token :: rest, idx⟩ =
    match turnAt (elementsFrom n true none) nested pending token ⟨rest, idx + 1⟩ with
    | .ok (.ends elements) r => ⟨elements, none, r⟩
    | .ok (.goesOn elements pending) r => (membersFrom n nested pending r).after elements
    | .error error r => .failed error r :=
  rfl

theorem membersFrom_of_ends {elements : List Element} {s : Reader}
    (read : turnAt (elementsFrom n true none) nested pending token ⟨rest, idx + 1⟩ =
      .ok (.ends elements) s) :
    membersFrom (n + 1) nested pending ⟨token :: rest, idx⟩ = ⟨elements, none, s⟩ := by
  rw [membersFrom_cons, read]

theorem membersFrom_of_error {error : ReadError} {s : Reader}
    (failed : turnAt (elementsFrom n true none) nested pending token ⟨rest, idx + 1⟩ =
      .error error s) :
    membersFrom (n + 1) nested pending ⟨token :: rest, idx⟩ = .failed error s := by
  rw [membersFrom_cons, failed]

theorem membersFrom_of_goesOn {elements : List Element} {next : Option Token} {s : Reader}
    (read : turnAt (elementsFrom n true none) nested pending token ⟨rest, idx + 1⟩ =
      .ok (.goesOn elements next) s) :
    membersFrom (n + 1) nested pending ⟨token :: rest, idx⟩ =
      (membersFrom n nested next s).after elements := by
  rw [membersFrom_cons, read]

end

end Element

end QmlDoc
