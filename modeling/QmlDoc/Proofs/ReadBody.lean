import QmlDoc.Proofs.BodyTurns
import QmlDoc.Proofs.ReadDeclaration

set_option autoImplicit false

namespace QmlDoc

open Outline

def Token.comment (token : Token) : Comment :=
  ⟨token.value, token.kind = .inlineComment⟩

theorem spells_comment {tokens : List Token} {note : Comment} {shapes : List Shape}
    (spelled : Spells tokens (note.shape :: shapes)) :
    ∃ token later, tokens = token :: later ∧ token.isComment = true ∧ token.comment = note ∧
      Spells later shapes := by
  obtain ⟨text, isInline⟩ := note
  obtain ⟨token, later, rfl, kindIs, valueIs, spelled⟩ := spells_cons.mp spelled
  refine ⟨token, later, rfl, ?_, ?_, spelled⟩
  · cases isInline <;> rw [Token.isComment, kindIs] <;> rfl
  · cases isInline <;> simp [Token.comment, kindIs, valueIs]

theorem Outline.addComment_of_not_bare (note : Comment) (items : List Item)
    (noted : startsBare items = false) : addComment note items = .comment note :: items := by
  unfold addComment
  split
  · simp [startsBare] at noted
  · rfl

namespace Element

theorem membersFrom_comment (n : Nat) (nested : Bool) (pending : Option Token) (token : Token)
    (rest : List Token) (idx : Nat) (isComment : token.isComment = true) :
    membersFrom (n + 1) nested pending ⟨token :: rest, idx⟩ =
      (membersFrom n nested (some token) ⟨rest, idx + 1⟩).after (ofPending pending) :=
  membersFrom_of_goesOn (turnAt_comment isComment)

theorem membersFrom_keyword (n : Nat) (nested : Bool) (pending : Option Token) (token : Token)
    (rest : List Token) (idx : Nat) (kindIs : token.kind = .keyword) {member : Option Element}
    {after : Reader} (read : readMember token pending ⟨rest, idx + 1⟩ = .ok member after) :
    membersFrom (n + 1) nested pending ⟨token :: rest, idx⟩ =
      (membersFrom n nested none after).after member.toList :=
  membersFrom_of_goesOn (turnAt_keyword kindIs read)

theorem membersFrom_attribute (n : Nat) (nested : Bool) (pending : Option Token) (token : Token)
    (rest : List Token) (idx : Nat) (kindIs : token.kind = .attributeName) {found : Element}
    {after : Reader} (read : readAttribute token pending ⟨rest, idx + 1⟩ = .ok found after) :
    membersFrom (n + 1) nested pending ⟨token :: rest, idx⟩ =
      (membersFrom n nested none after).after [found] :=
  membersFrom_of_goesOn (turnAt_attribute kindIs read)

theorem membersFrom_block (n : Nat) (nested : Bool) (pending : Option Token) (token : Token)
    (rest : List Token) (idx : Nat) (kindIs : token.kind = .blockStart) {after : Reader}
    (skipped : Reading.skipBlock ⟨rest, idx + 1⟩ = .ok () after) :
    membersFrom (n + 1) nested pending ⟨token :: rest, idx⟩ =
      membersFrom n nested pending after :=
  membersFrom_of_goesOn (turnAt_block kindIs skipped)

theorem membersFrom_end (n : Nat) (nested : Bool) (pending : Option Token) (token : Token)
    (rest : List Token) (idx : Nat) (kindIs : token.kind = .blockEnd) :
    membersFrom (n + 1) nested pending ⟨token :: rest, idx⟩ =
      ⟨ofPending pending, none, ⟨rest, idx + 1⟩⟩ :=
  membersFrom_of_ends (turnAt_end kindIs)

/-- Elements and single characters that belong to no member are passed. -/
theorem membersFrom_pass (n : Nat) (nested : Bool) (pending : Option Token) (token : Token)
    (rest : List Token) (idx : Nat) (kindIs : token.kind = .element ∨ token.kind = .char) :
    membersFrom (n + 1) nested pending ⟨token :: rest, idx⟩ =
      membersFrom n nested pending ⟨rest, idx + 1⟩ := by
  have idle : isIdle nested token.kind = true := by
    rcases kindIs with kindIs | kindIs <;> rw [kindIs] <;> rfl
  exact membersFrom_of_goesOn (turnAt_idle idle)

theorem membersFrom_passAll (tokens : List Token)
    (kindIs : ∀ token ∈ tokens, token.kind = .element ∨ token.kind = .char) :
    ∀ (n : Nat) (nested : Bool) (pending : Option Token) (rest : List Token) (idx : Nat),
    membersFrom (n + tokens.length) nested pending ⟨tokens ++ rest, idx⟩ =
      membersFrom n nested pending ⟨rest, idx + tokens.length⟩ := by
  induction tokens with
  | nil => intro n nested pending rest idx; rfl
  | cons token tokens ih =>
      intro n nested pending rest idx
      rw [List.length_cons, ← Nat.add_assoc, List.cons_append,
        membersFrom_pass _ _ _ _ _ _ (kindIs token (by simp)),
        ih (fun each member => kindIs each (by simp [member])), Nat.add_assoc, Nat.add_comm 1,
        ← Nat.add_assoc]

theorem openBlock_cons (start : Token) (rest : List Token) (idx : Nat)
    (startKind : start.kind = .blockStart) :
    openBlock ⟨start :: rest, idx⟩ = .ok () ⟨rest, idx + 1⟩ := by
  have read := Reading.code_cons start rest idx (by rw [Token.isComment, startKind]; rfl)
  rw [openBlock, Reading.bind_of_ok read, if_pos startKind]
  rfl

theorem membersFrom_component (n : Nat) (pending : Option Token) (token start : Token)
    (rest : List Token) (idx : Nat) (kindIs : token.kind = .component)
    (startKind : start.kind = .blockStart) {found : List Element} {after : Reader}
    (inner : membersFrom n true none ⟨rest, idx + 1 + 1⟩ = ⟨found, none, after⟩) :
    membersFrom (n + 1) true pending ⟨token :: start :: rest, idx⟩ =
      (membersFrom n true none after).after
        [component { name := token.value, comment := pending.map Token.value } found] := by
  have opened := openBlock_cons start rest (idx + 1) startKind
  exact membersFrom_of_goesOn (turnAt_object kindIs opened (elementsFrom_eq_ok_iff.mpr inner))

theorem membersFrom_inlineType (n : Nat) (nested : Bool) (pending : Option Token)
    (token colon base start : Token) (rest : List Token) (idx : Nat)
    (kindIs : token.kind = .inlineComponent) (colonKind : colon.kind = .char)
    (baseKind : base.kind = .element) (startKind : start.kind = .blockStart)
    {found : List Element} {after : Reader}
    (inner : membersFrom n true none ⟨rest, idx + 1 + 1 + 1 + 1⟩ = ⟨found, none, after⟩) :
    membersFrom (n + 1) nested pending ⟨token :: colon :: base :: start :: rest, idx⟩ =
      (membersFrom n nested none after).after
        [inlineType
          { name := token.value
            baseName := base.value
            headerComments := (pending.map Token.value).toList } found] := by
  have opened := openBlock_cons start rest (idx + 1 + 1 + 1) startKind
  have readColon := Reading.expect_kind .char colon (base :: start :: rest) (idx + 1) colonKind rfl
  have readBase := Reading.expect_kind .element base (start :: rest) (idx + 1 + 1) baseKind rfl
  have info : readInlineInfo token pending ⟨colon :: base :: start :: rest, idx + 1⟩ =
      .ok { name := token.value
            baseName := base.value
            headerComments := (pending.map Token.value).toList }
        ⟨rest, idx + 1 + 1 + 1 + 1⟩ := by
    rw [readInlineInfo, Reading.bind_of_ok readColon, Reading.bind_of_ok readBase,
      Reading.bind_of_ok opened]
    rfl
  exact membersFrom_of_goesOn (turnAt_inlineType kindIs info (elementsFrom_eq_ok_iff.mpr inner))

/-- The documentation of a member: the comment that is pending, else its own. -/
def docOf (pending : Option Token) (own : Doc) : Doc :=
  (pending.map Doc.ofToken).getD own

theorem docOf_comment (pending : Option Token) (own : Doc) :
    docOf pending own = ((pending.map Token.comment).map Comment.doc).getD own := by
  cases pending <;> rfl

theorem readMember_property {keyword : Token} {r after : Reader} {property : Property}
    (pending : Option Token) (isProperty : Text.endsWith keyword.value "property" = true)
    (read : Property.read keyword.value r = .ok property after) :
    readMember keyword pending r = .ok (unlessPrivate property.name
      (.property { property with doc := docOf pending property.doc })) after := by
  rw [readMember, if_pos isProperty, Reading.bind_of_ok read]
  rfl

theorem readMember_function {keyword : Token} {r after : Reader} {function : Function}
    (pending : Option Token) (valueIs : keyword.value = "function")
    (read : Function.read r = .ok function after) :
    readMember keyword pending r = .ok (unlessPrivate function.name
      (.function { function with doc := docOf pending function.doc })) after := by
  have other : ¬ Text.endsWith "function" "property" = true := by decide
  rw [readMember, valueIs, if_neg other, if_pos rfl, Reading.bind_of_ok read]
  rfl

theorem readMember_signal {keyword : Token} {r after : Reader} {signal : Signal}
    (pending : Option Token) (valueIs : keyword.value = "signal")
    (read : Signal.read r = .ok signal after) :
    readMember keyword pending r = .ok (unlessPrivate signal.name
      (.signal { signal with doc := docOf pending signal.doc })) after := by
  have other : ¬ Text.endsWith "signal" "property" = true := by decide
  rw [readMember, valueIs, if_neg other, if_neg (by decide), if_pos rfl, Reading.bind_of_ok read]
  rfl

theorem readMember_enumeration {keyword : Token} {r after : Reader} {enumeration : Enumeration}
    (pending : Option Token) (valueIs : keyword.value = "enum")
    (read : Enumeration.read r = .ok enumeration after) :
    readMember keyword pending r = .ok (unlessPrivate enumeration.name
      (.enumeration { enumeration with doc := docOf pending enumeration.doc })) after := by
  have other : ¬ Text.endsWith "enum" "property" = true := by decide
  rw [readMember, valueIs, if_neg other, if_neg (by decide), if_neg (by decide), if_pos rfl,
    Reading.bind_of_ok read]
  rfl

/-- Behind a declaration that ends here no list of parameters follows. -/
def EndsDeclaration (rest : List Token) : Prop :=
  ∃ comments next later, rest = comments ++ next :: later ∧
    (∀ token ∈ comments, token.isComment = true) ∧ next.isComment = false ∧ next.kind ≠ .char

/-- In a body, the tokens give these elements and leave no comment pending. Each round reads
a token or more. -/
def Yields (nested : Bool) (pending : Option Token) (tokens : List Token)
    (found : List Element) : Prop :=
  ∀ (n : Nat) (rest : List Token) (idx : Nat), tokens.length ≤ n → EndsDeclaration rest →
    ∃ m, n ≤ m + tokens.length ∧ membersFrom n nested pending ⟨tokens ++ rest, idx⟩ =
      (membersFrom m nested none ⟨rest, idx + tokens.length⟩).after found

theorem yields_property (nested : Bool) (pending : Option Token) (tokens : List Token)
    (form : PropertyForm) (type name : String) (value : Option String)
    (spelled : Spells tokens (Member.property form type name value).shapes) :
    Yields nested pending tokens
      ((Member.property form type name value).element? (pending.map Token.comment)).toList := by
  intro n rest idx enough _
  obtain ⟨keyword, tokens, rfl, keywordKind, keywordIs, spelled⟩ := spells_cons.mp spelled
  obtain ⟨front, back, rfl, inFront, inBack⟩ := spells_append.mp spelled
  have isProperty : Text.endsWith keyword.value "property" = true := by
    rw [keywordIs]
    cases form <;> decide
  have read := Property.read_spelled form type name front (back ++ rest) (idx + 1) inFront
  rw [← keywordIs] at read
  have passed : ∀ token ∈ back, token.kind = .element ∨ token.kind = .char := by
    intro token member
    have kindMember : token.kind ∈ back.map Token.kind := List.mem_map_of_mem member
    rw [inBack.kinds] at kindMember
    cases value with
    | none => simp at kindMember
    | some value => simpa [or_comm] using kindMember
  rw [List.length_cons, List.length_append] at enough
  obtain ⟨n, rfl⟩ : ∃ m, n = m + back.length + 1 := ⟨n - 1 - back.length, by omega⟩
  refine ⟨n, by simp only [List.length_cons, List.length_append]; omega, ?_⟩
  rw [List.cons_append, List.append_assoc,
    membersFrom_keyword _ _ _ _ _ _ keywordKind (readMember_property pending isProperty read),
    membersFrom_passAll back passed, docOf_comment]
  have place : idx + 1 + front.length + back.length =
      idx + (keyword :: (front ++ back)).length := by
    simp only [List.length_cons, List.length_append]
    omega
  rw [place]
  rfl

theorem yields_function (nested : Bool) (pending : Option Token) (tokens : List Token)
    (name : String) (parameters : List FunctionParameter) (body : List Shape)
    (blocks : BlocksMatch (body.map Prod.fst))
    (spelled : Spells tokens (Member.function name parameters body blocks).shapes) :
    Yields nested pending tokens
      ((Member.function name parameters body blocks).element?
        (pending.map Token.comment)).toList := by
  intro n rest idx enough _
  obtain ⟨keyword, tokens, rfl, keywordKind, keywordIs, spelled⟩ := spells_cons.mp spelled
  have split : Spells tokens (((.element, name) :: (.char, "(") ::
      (Parameter.listShapes (parameters.map FunctionParameter.written) ++ [(.char, ")")])) ++
        (.blockStart, "\x7b") :: (body ++ [(.blockEnd, "\x7d")])) := by
    simpa using spelled
  obtain ⟨front, back, rfl, inFront, inBack⟩ := spells_append.mp split
  obtain ⟨start, back, rfl, startKind, -, inBack⟩ := spells_cons.mp inBack
  obtain ⟨inside, back, rfl, inInside, inBack⟩ := spells_append.mp inBack
  obtain ⟨stop, back, rfl, stopKind, -, inBack⟩ := spells_cons.mp inBack
  obtain rfl := spells_nil.mp inBack
  have read := Function.read_spelled name parameters front (start :: (inside ++ stop :: rest))
    (idx + 1) inFront
  rw [← inInside.kinds] at blocks
  have skipped := Reading.skipBlock_of_match inside stop rest (idx + 1 + front.length + 1) blocks
    stopKind
  simp only [List.length_cons, List.length_append] at enough
  obtain ⟨n, rfl⟩ : ∃ m, n = m + 1 + 1 := ⟨n - 2, by omega⟩
  refine ⟨n, by simp only [List.length_cons, List.length_append]; omega, ?_⟩
  have order : keyword :: (front ++ start :: (inside ++ [stop])) ++ rest =
      keyword :: (front ++ start :: (inside ++ stop :: rest)) := by
    simp only [List.cons_append, List.append_assoc, List.nil_append]
  have place : idx + 1 + front.length + 1 + inside.length + 1 =
      idx + (keyword :: (front ++ start :: (inside ++ [stop]))).length := by
    simp only [List.length_cons, List.length_append, List.length_nil]
    omega
  rw [order, membersFrom_keyword _ _ _ _ _ _ keywordKind
      (readMember_function pending keywordIs read),
    membersFrom_block _ _ _ _ _ _ startKind skipped, docOf_comment, place]
  rfl

theorem yields_signal (nested : Bool) (pending : Option Token) (tokens : List Token)
    (name : String) (parameters : Option (List SignalParameter))
    (spelled : Spells tokens (Member.signal name parameters).shapes) :
    Yields nested pending tokens
      ((Member.signal name parameters).element? (pending.map Token.comment)).toList := by
  intro n rest idx enough ends
  obtain ⟨keyword, tokens, rfl, keywordKind, keywordIs, spelled⟩ := spells_cons.mp spelled
  obtain ⟨n, rfl⟩ : ∃ m, n = m + 1 := ⟨n - 1, by rw [List.length_cons] at enough; omega⟩
  refine ⟨n, by rw [List.length_cons]; omega, ?_⟩
  have read : Signal.read ⟨tokens ++ rest, idx + 1⟩ =
      .ok { name, args := (parameters.getD []).map fun parameter => parameter.written.argument }
        ⟨rest, idx + 1 + tokens.length⟩ := by
    cases parameters with
    | none =>
        obtain ⟨word, later, rfl, wordKind, wordIs, spelled⟩ := spells_cons.mp spelled
        obtain rfl := spells_nil.mp spelled
        obtain ⟨comments, next, later, rfl, areComments, nextCode, nextKind⟩ := ends
        rw [← wordIs]
        exact Signal.read_bare word comments next later (idx + 1) wordKind areComments nextCode
          nextKind
    | some parameters => exact Signal.read_spelled name parameters tokens rest (idx + 1) spelled
  have place : idx + 1 + tokens.length = idx + (keyword :: tokens).length := by
    rw [List.length_cons]
    omega
  rw [List.cons_append, membersFrom_keyword _ _ _ _ _ _ keywordKind
    (readMember_signal pending keywordIs read), docOf_comment, place]
  rfl

theorem membersFrom_enumeration (n : Nat) (nested : Bool) (pending : Option Token)
    (tokens rest : List Token) (idx : Nat) (name : String) (constants : List Constant)
    (closingComma : Bool)
    (spelled : Spells tokens (Member.enumeration name constants closingComma).shapes) :
    membersFrom (n + 1) nested pending ⟨tokens ++ rest, idx⟩ =
      (membersFrom n nested none ⟨rest, idx + tokens.length⟩).after
        ((Member.enumeration name constants closingComma).element?
          (pending.map Token.comment)).toList := by
  obtain ⟨keyword, tokens, rfl, keywordKind, keywordIs, spelled⟩ := spells_cons.mp spelled
  have read := Enumeration.read_spelled name constants closingComma tokens rest (idx + 1) spelled
  have place : idx + 1 + tokens.length = idx + (keyword :: tokens).length := by
    rw [List.length_cons]
    omega
  rw [List.cons_append, membersFrom_keyword _ _ _ _ _ _ keywordKind
    (readMember_enumeration pending keywordIs read), docOf_comment, place]
  rfl

theorem yields_enumeration (nested : Bool) (pending : Option Token) (tokens : List Token)
    (name : String) (constants : List Constant) (closingComma : Bool)
    (spelled : Spells tokens (Member.enumeration name constants closingComma).shapes) :
    Yields nested pending tokens ((Member.enumeration name constants closingComma).element?
      (pending.map Token.comment)).toList := by
  intro n rest idx enough _
  obtain ⟨keyword, later, isCons, -⟩ := spells_cons.mp spelled
  have size : 0 < tokens.length := by simp [isCons]
  obtain ⟨n, rfl⟩ : ∃ m, n = m + 1 := ⟨n - 1, by omega⟩
  exact ⟨n, by omega, membersFrom_enumeration n nested pending tokens rest idx name constants
    closingComma spelled⟩

theorem yields_attribute (nested : Bool) (pending : Option Token) (tokens : List Token)
    (name value : String) (isString : Bool)
    (spelled : Spells tokens (Member.attr name value isString).shapes) :
    Yields nested pending tokens
      ((Member.attr name value isString).element? (pending.map Token.comment)).toList := by
  intro n rest idx enough _
  obtain ⟨word, tokens, rfl, wordKind, wordIs, spelled⟩ := spells_cons.mp spelled
  obtain ⟨colon, tokens, rfl, colonKind, -, spelled⟩ := spells_cons.mp spelled
  obtain ⟨given, tokens, rfl, givenKind, givenIs, spelled⟩ := spells_cons.mp spelled
  obtain rfl := spells_nil.mp spelled
  obtain ⟨n, rfl⟩ : ∃ m, n = m + 1 := ⟨n - 1, by rw [List.length_cons] at enough; omega⟩
  refine ⟨n, by rw [List.length_cons]; omega, ?_⟩
  have readColon := Reading.expect_kind .char colon (given :: rest) (idx + 1) colonKind rfl
  have notBlock : given.kind ≠ .blockStart := by
    cases isString <;> rw [givenKind] <;> decide
  have read : readAttribute word pending ⟨colon :: given :: rest, idx + 1⟩ =
      .ok (.attr { name, value, doc := (pending.map Token.value).getD "" })
        ⟨rest, idx + 1 + 1 + 1⟩ := by
    have readGiven : Reading.any ⟨given :: rest, idx + 1 + 1⟩ =
        .ok given ⟨rest, idx + 1 + 1 + 1⟩ := rfl
    rw [readAttribute, Reading.bind_of_ok readColon, Reading.bind_of_ok readGiven]
    simp only [notBlock, if_false, wordIs, givenIs]
    rfl
  rw [List.cons_append, List.cons_append, List.cons_append, List.nil_append,
    membersFrom_attribute _ _ _ _ _ _ wordKind read]
  cases pending <;> rfl

theorem yields_member (nested : Bool) (pending : Option Token) (tokens : List Token)
    (declared : Member) (spelled : Spells tokens declared.shapes) :
    Yields nested pending tokens (declared.element? (pending.map Token.comment)).toList := by
  cases declared with
  | property form type name value =>
      exact yields_property nested pending tokens form type name value spelled
  | function name parameters body blocks =>
      exact yields_function nested pending tokens name parameters body blocks spelled
  | signal name parameters => exact yields_signal nested pending tokens name parameters spelled
  | enumeration name constants closingComma =>
      exact yields_enumeration nested pending tokens name constants closingComma spelled
  | attr name value isString =>
      exact yields_attribute nested pending tokens name value isString spelled

/-- An entry starts with a token that only an entry can start with. -/
theorem spells_entry {tokens : List Token} {part : Entry} (spelled : Spells tokens part.shapes) :
    ∃ first later, tokens = first :: later ∧ first.isComment = false ∧ first.kind ≠ .char := by
  obtain ⟨kind, value, shapes, start, isCode, isWord⟩ : ∃ kind value shapes,
      part.shapes = (kind, value) :: shapes ∧ kind.isComment = false ∧ kind ≠ .char := by
    cases part with
    | member declared =>
        cases declared <;> exact ⟨_, _, _, by rw [Entry.shapes]; rfl, rfl, by decide⟩
    | component name body => exact ⟨_, _, _, by rw [Entry.shapes], rfl, by decide⟩
    | inlineType name baseName body => exact ⟨_, _, _, by rw [Entry.shapes], rfl, by decide⟩
  rw [start] at spelled
  obtain ⟨first, later, rfl, kindIs, -, -⟩ := spells_cons.mp spelled
  exact ⟨first, later, rfl, by rw [Token.isComment, kindIs, isCode], by rw [kindIs]; exact isWord⟩

theorem EndsDeclaration.cons {comment : Token} {rest : List Token}
    (isComment : comment.isComment = true) (ends : EndsDeclaration rest) :
    EndsDeclaration (comment :: rest) := by
  obtain ⟨comments, next, later, rfl, areComments, nextCode, nextKind⟩ := ends
  refine ⟨comment :: comments, next, later, rfl, ?_, nextCode, nextKind⟩
  intro token member
  rcases List.mem_cons.mp member with rfl | member
  · exact isComment
  · exact areComments token member

theorem endsDeclaration_entry {tokens : List Token} {part : Entry} (rest : List Token)
    (spelled : Spells tokens part.shapes) : EndsDeclaration (tokens ++ rest) := by
  obtain ⟨first, later, rfl, isCode, isWord⟩ := spells_entry spelled
  exact ⟨[], first, later ++ rest, rfl, by simp, isCode, isWord⟩

/-- What follows a declaration in a body is no list of parameters. -/
theorem endsDeclaration_body (items : List Item) (stop : Token) (rest : List Token)
    (isEnd : stop.kind = .blockEnd) : ∀ tokens, Spells tokens (bodyShapes items) →
    EndsDeclaration (tokens ++ stop :: rest) := by
  induction items with
  | nil =>
      intro tokens spelled
      obtain rfl := spells_nil.mp (by simpa only [bodyShapes] using spelled)
      exact ⟨[], stop, rest, rfl, by simp, by rw [Token.isComment, isEnd]; rfl, by simp [isEnd]⟩
  | cons item items ih =>
      intro tokens spelled
      rw [bodyShapes] at spelled
      obtain ⟨front, back, rfl, inFront, inBack⟩ := spells_append.mp spelled
      rw [List.append_assoc]
      cases item with
      | comment note =>
          rw [Item.shapes] at inFront
          obtain ⟨token, later, rfl, isComment, -, inFront⟩ := spells_comment inFront
          obtain rfl := spells_nil.mp inFront
          exact (ih back inBack).cons isComment
      | entry note part =>
          rw [Item.shapes] at inFront
          cases note with
          | none => exact endsDeclaration_entry _ inFront
          | some note =>
              obtain ⟨token, later, rfl, isComment, -, inFront⟩ := spells_comment inFront
              exact (endsDeclaration_entry _ inFront).cons isComment

def withPending (pending : Option Comment) (items : List Item) : List Item :=
  (pending.map fun note => addComment note items).getD items

theorem elements_withPending_bare (pending : Option Comment) (part : Entry) (items : List Item) :
    elements (withPending pending (.entry none part :: items)) =
      (part.element? pending).toList ++ elements items := by
  cases pending <;> simp only [withPending, Option.map_none, Option.map_some, Option.getD_none,
    Option.getD_some, addComment, elements, Item.element?]

theorem elements_withPending_noted (pending : Option Token) (items : List Item)
    (noted : startsBare items = false) :
    elements (withPending (pending.map Token.comment) items) =
      ofPending pending ++ elements items := by
  cases pending with
  | none => rfl
  | some token =>
      simp only [withPending, Option.map_some, Option.getD_some,
        addComment_of_not_bare token.comment items noted, elements, Item.element?]
      rfl

theorem startsBare_addComment (note : Comment) (items : List Item) :
    startsBare (addComment note items) = false := by
  unfold addComment
  split <;> rfl

-- The recursion is on the outline: an entry reads its body, a body reads its entries. What
-- goes on from one item to the next is the pending comment alone.
mutual

theorem yields_entry (part : Entry) (pending : Option Token) (tokens : List Token)
    (spelled : Spells tokens part.shapes) :
    Yields true pending tokens (part.settle.element? (pending.map Token.comment)).toList := by
  match part with
  | .member declared =>
      rw [Entry.shapes] at spelled
      rw [Entry.settle, Entry.element?]
      exact yields_member true pending tokens declared spelled
  | .component name body =>
      intro n rest idx enough _
      rw [Entry.shapes, braced] at spelled
      obtain ⟨word, tokens, rfl, wordKind, wordIs, spelled⟩ := spells_cons.mp spelled
      obtain ⟨start, tokens, rfl, startKind, -, spelled⟩ := spells_cons.mp spelled
      obtain ⟨inside, back, rfl, inInside, inBack⟩ := spells_append.mp spelled
      obtain ⟨stop, back, rfl, stopKind, -, inBack⟩ := spells_cons.mp inBack
      obtain rfl := spells_nil.mp inBack
      simp only [List.length_cons, List.length_append] at enough
      obtain ⟨n, rfl⟩ : ∃ m, n = m + 1 := ⟨n - 1, by omega⟩
      have inner := membersFrom_body body n none inside stop rest (idx + 1 + 1) inInside stopKind
        (by omega)
      refine ⟨n, by rw [List.length_cons]; omega, ?_⟩
      have order : word :: start :: (inside ++ [stop]) ++ rest =
          word :: start :: (inside ++ stop :: rest) := by
        simp only [List.cons_append, List.append_assoc, List.nil_append]
      have place : idx + 1 + 1 + inside.length + 1 =
          idx + (word :: start :: (inside ++ [stop])).length := by
        simp only [List.length_cons, List.length_append, List.length_nil]
        omega
      rw [order, membersFrom_component n pending word start _ idx wordKind startKind inner, place,
        Entry.settle, Entry.element?, wordIs, Option.map_map]
      rfl
  | .inlineType name baseName body =>
      intro n rest idx enough _
      rw [Entry.shapes, braced] at spelled
      obtain ⟨word, tokens, rfl, wordKind, wordIs, spelled⟩ := spells_cons.mp spelled
      obtain ⟨colon, tokens, rfl, colonKind, -, spelled⟩ := spells_cons.mp spelled
      obtain ⟨base, tokens, rfl, baseKind, baseIs, spelled⟩ := spells_cons.mp spelled
      obtain ⟨start, tokens, rfl, startKind, -, spelled⟩ := spells_cons.mp spelled
      obtain ⟨inside, back, rfl, inInside, inBack⟩ := spells_append.mp spelled
      obtain ⟨stop, back, rfl, stopKind, -, inBack⟩ := spells_cons.mp inBack
      obtain rfl := spells_nil.mp inBack
      simp only [List.length_cons, List.length_append] at enough
      obtain ⟨n, rfl⟩ : ∃ m, n = m + 1 := ⟨n - 1, by omega⟩
      have inner := membersFrom_body body n none inside stop rest (idx + 1 + 1 + 1 + 1) inInside
        stopKind (by omega)
      refine ⟨n, by rw [List.length_cons]; omega, ?_⟩
      have order : word :: colon :: base :: start :: (inside ++ [stop]) ++ rest =
          word :: colon :: base :: start :: (inside ++ stop :: rest) := by
        simp only [List.cons_append, List.append_assoc, List.nil_append]
      have place : idx + 1 + 1 + 1 + 1 + inside.length + 1 =
          idx + (word :: colon :: base :: start :: (inside ++ [stop])).length := by
        simp only [List.length_cons, List.length_append, List.length_nil]
        omega
      rw [order, membersFrom_inlineType n true pending word colon base start _ idx wordKind
        colonKind baseKind startKind inner, place, Entry.settle, Entry.element?, wordIs, baseIs,
        Option.map_map]
      rfl

theorem membersFrom_body (items : List Item) (n : Nat) (pending : Option Token)
    (tokens : List Token) (stop : Token) (rest : List Token) (idx : Nat)
    (spelled : Spells tokens (bodyShapes items)) (isEnd : stop.kind = .blockEnd)
    (enough : tokens.length < n) :
    membersFrom n true pending ⟨tokens ++ stop :: rest, idx⟩ =
      ⟨elements (withPending (pending.map Token.comment) (settleBody items)), none,
        ⟨rest, idx + tokens.length + 1⟩⟩ := by
  obtain ⟨n, rfl⟩ : ∃ m, n = m + 1 := ⟨n - 1, by omega⟩
  match items with
  | [] =>
      rw [bodyShapes] at spelled
      obtain rfl := spells_nil.mp spelled
      rw [List.nil_append, membersFrom_end n true pending stop rest idx isEnd, settleBody,
        elements_withPending_noted pending [] rfl, elements, List.append_nil]
      rfl
  | .comment note :: later =>
      rw [bodyShapes, Item.shapes] at spelled
      obtain ⟨token, back, rfl, isComment, noteIs, spelled⟩ := spells_comment spelled
      rw [List.length_cons] at enough
      have readLater := membersFrom_body later n (some token) back stop rest (idx + 1) spelled
        isEnd (by omega)
      have place : idx + (token :: back).length + 1 = idx + 1 + back.length + 1 := by
        rw [List.length_cons]
        omega
      rw [List.cons_append, membersFrom_comment n true pending token _ idx isComment, readLater,
        settleBody, elements_withPending_noted pending _ (startsBare_addComment _ _), place,
        ← noteIs]
      rfl
  | .entry none part :: later =>
      rw [bodyShapes, Item.shapes] at spelled
      obtain ⟨front, back, rfl, inFront, inBack⟩ := spells_append.mp spelled
      rw [List.length_append] at enough
      obtain ⟨m, bound, readPart⟩ := yields_entry part pending front inFront (n + 1)
        (back ++ stop :: rest) idx (by omega)
        (endsDeclaration_body later stop rest isEnd back inBack)
      have readLater := membersFrom_body later m none back stop rest (idx + front.length) inBack
        isEnd (by omega)
      have place : idx + (front ++ back).length + 1 = idx + front.length + back.length + 1 := by
        rw [List.length_append]
        omega
      rw [List.append_assoc, readPart, readLater, settleBody, elements_withPending_bare, place]
      rfl
  | .entry (some note) part :: later =>
      rw [bodyShapes, Item.shapes] at spelled
      change Spells tokens (note.shape :: (part.shapes ++ bodyShapes later)) at spelled
      obtain ⟨token, tokens, rfl, isComment, noteIs, spelled⟩ := spells_comment spelled
      obtain ⟨front, back, rfl, inFront, inBack⟩ := spells_append.mp spelled
      rw [List.length_cons, List.length_append] at enough
      obtain ⟨m, bound, readPart⟩ := yields_entry part (some token) front inFront n
        (back ++ stop :: rest) (idx + 1) (by omega)
        (endsDeclaration_body later stop rest isEnd back inBack)
      have readLater := membersFrom_body later m none back stop rest (idx + 1 + front.length) inBack
        isEnd (by omega)
      have place : idx + (token :: (front ++ back)).length + 1 =
          idx + 1 + front.length + back.length + 1 := by
        rw [List.length_cons, List.length_append]
        omega
      rw [List.cons_append, List.append_assoc,
        membersFrom_comment n true pending token _ idx isComment, readPart, readLater, settleBody,
        elements_withPending_noted pending _ rfl, place, elements, Item.element?, ← noteIs]
      rfl

end

/-- A body with its braces. -/
theorem readBody_spelled (items : List Item) (tokens rest : List Token) (idx : Nat)
    (spelled : Spells tokens (braced (bodyShapes items))) :
    readBody true ⟨tokens ++ rest, idx⟩ =
      ⟨elements (settleBody items), none, ⟨rest, idx + tokens.length⟩⟩ := by
  obtain ⟨start, tokens, rfl, startKind, -, spelled⟩ := spells_cons.mp spelled
  obtain ⟨inside, back, rfl, inInside, inBack⟩ := spells_append.mp spelled
  obtain ⟨stop, back, rfl, stopKind, -, inBack⟩ := spells_cons.mp inBack
  obtain rfl := spells_nil.mp inBack
  have place : idx + (start :: (inside ++ [stop])).length = idx + 1 + inside.length + 1 := by
    simp only [List.length_cons, List.length_append, List.length_nil]
    omega
  rw [List.cons_append, List.append_assoc, List.singleton_append, readBody,
    openBlock_cons start _ idx startKind, place]
  exact membersFrom_body items _ none inside stop rest (idx + 1) inInside stopKind
    (by rw [List.length_append]; omega)

end Element

end QmlDoc
