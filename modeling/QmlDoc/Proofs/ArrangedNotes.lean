import QmlDoc.Proofs.ArrangedOrder
import QmlDoc.Proofs.ReadDeclaration

set_option autoImplicit false

namespace QmlDoc

namespace Token

/-- What comes next is documented already: an inline comment or a documentation comment stands
right before it. -/
def documented (front : List Token) : Bool :=
  front.getLast?.any fun previous => previous.kind = .inlineComment || previous.isDoc

/-- What is found beyond a token that does not end the search is one token farther away. -/
def Anchor.beyond : Anchor → Anchor
  | keyword distance => keyword (distance + 1)
  | barrier => barrier

theorem anchor?_pass {token : Token} (passed : token.kind.endsSearch = false)
    (further : List Token) : anchor? (token :: further) = (anchor? further).map Anchor.beyond := by
  rw [anchor?]
  cases kindIs : token.kind <;> rw [kindIs] at passed <;> first | rfl | cases passed

theorem anchor?_behind {crossed far : List Token} {anchor : Token}
    (free : ∀ token ∈ crossed, token.kind.endsSearch = false)
    (ends : anchor.kind.endsSearch = true) :
    anchor? (crossed ++ anchor :: far) =
      some (if anchor.kind = .keyword then .keyword crossed.length else .barrier) := by
  induction crossed with
  | nil =>
      rw [List.nil_append, anchor?]
      cases kindIs : anchor.kind <;> rw [kindIs] at ends <;> first | rfl | cases ends
  | cons token crossed ih =>
      rw [List.forall_mem_cons] at free
      rw [List.cons_append, anchor?_pass free.1, ih free.2]
      split <;> rfl

/-- Behind `front`, the search from behind `crossed` meets `anchor` first. -/
structure Nearest (front : List Token) (anchor : Token) (crossed : List Token) : Prop where
  nonempty : front ≠ []
  ends : anchor.kind.endsSearch = true
  free : ∀ token ∈ crossed, token.kind.endsSearch = false

/-- The tokens that end a search, the last of them at the end. -/
theorem nearest_of_mem {front tokens : List Token} (nonempty : front ≠ [])
    (present : ∃ token ∈ tokens, token.kind.endsSearch = true) :
    ∃ far anchor crossed, tokens = far ++ anchor :: crossed ∧
      Nearest (front ++ far) anchor crossed := by
  induction tokens with
  | nil =>
      obtain ⟨token, member, -⟩ := present
      cases member
  | cons first tokens ih =>
      by_cases later : ∃ token ∈ tokens, token.kind.endsSearch = true
      · obtain ⟨far, anchor, crossed, rfl, nearest⟩ := ih later
        exact ⟨first :: far, anchor, crossed, rfl, by simp, nearest.ends, nearest.free⟩
      · have free : ∀ token ∈ tokens, token.kind.endsSearch = false := by simpa using later
        have ends : first.kind.endsSearch = true := by
          obtain ⟨token, member, ends⟩ := present
          rcases List.mem_cons.mp member with rfl | inTokens
          · exact ends
          · exact absurd ⟨token, inTokens, ends⟩ later
        exact ⟨[], first, tokens, rfl, by simpa using nonempty, ends, free⟩

/-- A comment that meets `anchor` first is moved in front of it. -/
def attracts (front : List Token) (anchor : Token) : Bool :=
  anchor.kind = .keyword && !documented front

/-- The tokens with an inline comment behind `front`, the nearest token that ends the search, and
tokens that do not. -/
def placeNote (front : List Token) (anchor : Token) (crossed : List Token) (comment : Token) :
    List Token :=
  if attracts front anchor then front ++ comment :: anchor :: crossed
  else front ++ anchor :: (crossed ++ [comment])

variable {front crossed : List Token} {anchor : Token}

theorem Nearest.append {code : List Token} (nearest : Nearest front anchor crossed)
    (free : ∀ token ∈ code, token.kind.endsSearch = false) :
    Nearest front anchor (crossed ++ code) :=
  ⟨nearest.nonempty, nearest.ends, List.forall_mem_append.mpr ⟨nearest.free, free⟩⟩

theorem liftAt_near (nearest : Nearest front anchor crossed) (near : crossed.length < 19)
    (comment : Token) :
    liftAt (front ++ anchor :: crossed ++ [comment]) (front ++ anchor :: crossed).length =
      .ok (placeNote front anchor crossed comment) := by
  have inFront := List.length_pos_iff.mpr nearest.nonempty
  have size : (front ++ anchor :: crossed).length = front.length + 1 + crossed.length := by
    rw [List.length_append, List.length_cons]
    omega
  have window : searched (front ++ anchor :: crossed ++ [comment])
      (front ++ anchor :: crossed).length = crossed.reverse ++ anchor ::
        (front.drop ((front ++ anchor :: crossed).length - 20 + 1)).reverse := by
    rw [searched_behind _ comment (by omega), List.drop_append_of_le_length (by omega)]
    simp
  rw [liftAt, window, anchor?_behind (by simpa using nearest.free) nearest.ends, placeNote]
  by_cases isKeyword : anchor.kind = .keyword
  · have target : (front ++ anchor :: crossed).length - crossed.reverse.length - 1 =
        front.length := by
      rw [size, List.length_reverse]
      omega
    have previous : (front ++ anchor :: crossed ++ [comment])[front.length - 1]? =
        front.getLast? := by
      rw [List.getLast?_eq_getElem?, List.append_assoc, List.getElem?_append_left (by omega)]
    have last : (front ++ anchor :: crossed ++ [comment])[(front ++ anchor :: crossed).length]? =
        some comment := by
      simp
    have erased : (front ++ anchor :: crossed ++ [comment]).eraseIdx
        (front ++ anchor :: crossed).length = front ++ anchor :: crossed := by
      rw [List.eraseIdx_append_of_length_le (Nat.le_refl _)]
      simp
    have inserted := insertIdx_length front (anchor :: crossed) comment
    have stays : front ++ anchor :: crossed ++ [comment] =
        front ++ anchor :: (crossed ++ [comment]) := by simp
    obtain ⟨found, isLast⟩ : ∃ found, front.getLast? = some found :=
      ⟨_, List.getLast?_eq_some_getLast nearest.nonempty⟩
    simp only [if_pos isKeyword, target, previous, last, erased, inserted, attracts, documented,
      isLast, if_neg (Nat.ne_of_gt inFront), Option.any_some]
    by_cases noted : (found.kind = .inlineComment || found.isDoc : Bool) = true
    · rw [if_pos noted, stays, noted, Bool.not_true, Bool.and_false, if_neg Bool.false_ne_true]
    · rw [if_neg noted, if_pos (by simpa [isKeyword] using noted)]
  · simp [attracts, isKeyword]

theorem liftAt_far (nearest : Nearest front anchor crossed) (far : 19 ≤ crossed.length)
    (comment : Token) :
    liftAt (front ++ anchor :: crossed ++ [comment]) (front ++ anchor :: crossed).length =
      .error .noKeyword := by
  have size : (front ++ anchor :: crossed).length = front.length + 1 + crossed.length := by
    rw [List.length_append, List.length_cons]
    omega
  refine liftAt_stranded _ comment (by omega) ?_
  rintro ⟨i, token, -, near, present, ends⟩
  -- The nineteen tokens before the comment are all among those that end no search.
  rw [List.append_cons, List.getElem?_append_right (by simp; omega)] at present
  rw [nearest.free token (List.mem_of_getElem? present)] at ends
  cases ends

/-- Tokens that end no search stay as they are. -/
theorem settled_free {token : Token} (free : token.kind.endsSearch = false) (done : List Token) :
    settled done token = token := by
  have noKeyword : token.kind ≠ .keyword := by
    intro kindIs
    rw [kindIs] at free
    cases free
  have noComment : token.isComment = false := by
    rw [isComment]
    cases kindIs : token.kind <;> rw [kindIs] at free <;> first | rfl | cases free
  simp [settled, noKeyword, noComment]

theorem settled_note {token : Token} (inline : token.kind = .inlineComment) (done : List Token) :
    settled done token = token.outdent := by
  simp [settled, inline, isComment, Kind.isComment]

/-- Tokens that can be arranged are arranged before all that follow them. -/
theorem arrangeFrom_append (tokens : List Token) : ∀ (done : List Token),
    (arrangeFrom done tokens).error = none → ∀ (ahead : List Token),
      arrangeFrom done (tokens ++ ahead) = arrangeFrom (arrangeFrom done tokens).tokens ahead := by
  induction tokens with
  | nil => intro done _ ahead; rfl
  | cons token tokens ih =>
      intro done succeeds ahead
      by_cases placed : token.kind = .inlineComment → 1 < done.length → Anchored done
      · obtain ⟨reached, -, step⟩ := arrangeFrom_step done token placed
        rw [step] at succeeds ⊢
        rw [List.cons_append, step, ih reached succeeds]
      · obtain ⟨inline, behind, far⟩ : token.kind = .inlineComment ∧ 1 < done.length ∧
            ¬Anchored done := by simpa using placed
        rw [arrangeFrom_stranded done token inline behind far] at succeeds
        cases succeeds

/-- What is no inline comment is put behind the tokens before it. -/
theorem arrangeFrom_other {token : Token} (other : token.kind ≠ .inlineComment)
    (done ahead : List Token) :
    arrangeFrom done (token :: ahead) = arrangeFrom (done ++ [settled done token]) ahead := by
  rw [arrangeFrom_cons, if_neg (by simp [other])]

theorem arrangeFrom_free (code : List Token)
    (free : ∀ token ∈ code, token.kind.endsSearch = false) : ∀ (done ahead : List Token),
    arrangeFrom done (code ++ ahead) = arrangeFrom (done ++ code) ahead := by
  induction code with
  | nil => simp
  | cons token code ih =>
      intro done ahead
      rw [List.forall_mem_cons] at free
      have other : token.kind ≠ .inlineComment := by
        intro kindIs
        rw [kindIs] at free
        cases free.1
      rw [List.cons_append, arrangeFrom_other other, settled_free free.1, ih free.2]
      simp

theorem arrangeFrom_near (nearest : Nearest front anchor crossed) (near : crossed.length < 19)
    {note : Token} (inline : note.kind = .inlineComment) (ahead : List Token) :
    arrangeFrom (front ++ anchor :: crossed) (note :: ahead) =
      arrangeFrom (placeNote front anchor crossed note.outdent) ahead := by
  have inFront := List.length_pos_iff.mpr nearest.nonempty
  have lifts : (note.kind = .inlineComment && 1 < (front ++ anchor :: crossed).length : Bool) =
      true := by
    simp [inline]
    omega
  rw [arrangeFrom_cons, if_pos lifts, settled_note inline, liftAt_near nearest near]

theorem arrangeFrom_far (nearest : Nearest front anchor crossed) (far : 19 ≤ crossed.length)
    {note : Token} (inline : note.kind = .inlineComment) (ahead : List Token) :
    arrangeFrom (front ++ anchor :: crossed) (note :: ahead) =
      ⟨front ++ anchor :: crossed ++ [note.outdent] ++ ahead, some .noKeyword⟩ := by
  have lifts : (note.kind = .inlineComment && 1 < (front ++ anchor :: crossed).length : Bool) =
      true := by
    simp [inline]
    omega
  rw [arrangeFrom_cons, if_pos lifts, settled_note inline, liftAt_far nearest far]

/-- An inline comment behind these tokens is not moved into them. -/
def Sealed (tokens : List Token) : Prop :=
  ∃ front anchor crossed, tokens = front ++ anchor :: crossed ∧ Nearest front anchor crossed ∧
    attracts front anchor = false

theorem Sealed.append {tokens code : List Token} (isSealed : Sealed tokens)
    (free : ∀ token ∈ code, token.kind.endsSearch = false) : Sealed (tokens ++ code) := by
  obtain ⟨front, anchor, crossed, rfl, nearest, keeps⟩ := isSealed
  exact ⟨front, anchor, crossed ++ code, by simp, nearest.append free, keeps⟩

/-- The tokens `done` stay in front of all else, which `mid` is the first part of. -/
def Stays (done mid : List Token) : Prop :=
  Sealed done ∨ done ≠ [] ∧ ∃ token ∈ mid, token.kind.endsSearch = true

theorem Stays.append {done mid : List Token} (stays : Stays done mid) (more : List Token) :
    Stays done (mid ++ more) := by
  rcases stays with sealed | ⟨nonempty, token, member, ends⟩
  · exact Or.inl sealed
  · exact Or.inr ⟨nonempty, token, List.mem_append_left _ member, ends⟩

/-- One more inline comment is put behind `done`, or is too far from all that could hold it. -/
theorem arrangeFrom_stays {done mid : List Token} (stays : Stays done mid) {note : Token}
    (inline : note.kind = .inlineComment) (ahead : List Token) :
    (∃ mid', Stays done mid' ∧
        arrangeFrom (done ++ mid) (note :: ahead) = arrangeFrom (done ++ mid') ahead) ∨
      ∃ later error, arrangeFrom (done ++ mid) (note :: ahead) = ⟨done ++ later, error⟩ := by
  by_cases present : done ≠ [] ∧ ∃ token ∈ mid, token.kind.endsSearch = true
  · obtain ⟨nonempty, inMid⟩ := present
    obtain ⟨far, anchor, crossed, rfl, nearest⟩ := nearest_of_mem nonempty inMid
    rw [← List.append_assoc]
    by_cases near : crossed.length < 19
    · left
      rw [arrangeFrom_near nearest near inline, placeNote]
      split
      · exact ⟨far ++ note.outdent :: anchor :: crossed,
          Or.inr ⟨nonempty, anchor, by simp, nearest.ends⟩, by rw [List.append_assoc]⟩
      · exact ⟨far ++ anchor :: (crossed ++ [note.outdent]),
          Or.inr ⟨nonempty, anchor, by simp, nearest.ends⟩, by rw [List.append_assoc]⟩
    · right
      rw [arrangeFrom_far nearest (by omega) inline]
      exact ⟨far ++ anchor :: crossed ++ [note.outdent] ++ ahead, some .noKeyword, by simp⟩
  · have isSealed : Sealed done := stays.resolve_right present
    obtain ⟨front, anchor, crossed, rfl, nearest, keeps⟩ := isSealed
    have free : ∀ token ∈ mid, token.kind.endsSearch = false := by simpa using present
    have whole : front ++ anchor :: crossed ++ mid = front ++ anchor :: (crossed ++ mid) := by simp
    rw [whole]
    by_cases near : (crossed ++ mid).length < 19
    · left
      rw [arrangeFrom_near (nearest.append free) near inline, placeNote, keeps,
        if_neg Bool.false_ne_true]
      exact ⟨mid ++ [note.outdent], stays.append _, by simp⟩
    · right
      rw [arrangeFrom_far (nearest.append free) (by omega) inline]
      exact ⟨mid ++ [note.outdent] ++ ahead, some .noKeyword, by simp⟩

/-- The induction is on the tokens ahead, and the tokens that stay in front never change. -/
theorem tokens_of_stays {done : List Token} (ahead : List Token) : ∀ {mid : List Token},
    Stays done mid → ∃ later, (arrangeFrom (done ++ mid) ahead).tokens = done ++ later := by
  induction ahead with
  | nil => exact fun {mid} _ => ⟨mid, rfl⟩
  | cons token ahead ih =>
      intro mid stays
      by_cases inline : token.kind = .inlineComment
      · rcases arrangeFrom_stays stays inline ahead with ⟨mid', stays', step⟩ | ⟨later, error, stop⟩
        · rw [step]
          exact ih stays'
        · exact ⟨later, by rw [stop]⟩
      · rw [arrangeFrom_other inline, List.append_assoc]
        exact ih (stays.append _)

end Token

namespace Outline.Constant

/-- The tokens of the constant without comments: its name, its initializer and its comma. -/
def codeShapes (constant : Constant) : List Shape :=
  (.element, constant.name) :: (initializerShapes constant.initializer ++ [(.char, ",")])

def trailing? (constant : Constant) : Option String :=
  constant.note.at? true

/-- The constant has no other comment than one of one line behind its comma. -/
def IsTrailing (constant : Constant) : Prop :=
  constant.note = .absent ∨ ∃ text line, constant.note = .after text true ∧
    text.toList = '/' :: line ∧ '\n' ∉ line

def firstNote? (constants : List Constant) : Option String :=
  constants.findSome? trailing?

def dropFirstNote : List Constant → List Constant
  | [] => []
  | constant :: later =>
      if constant.trailing?.isSome then { constant with note := .absent } :: later
      else constant :: dropFirstNote later

/-- Each comment has less than nineteen tokens between it and the comment before it, or the
keyword. `gap` tokens stand between that and the first constant; a comment that is moved in front
of the keyword leaves the next one with all tokens since the keyword before it. -/
def notesNear : Bool → Nat → List Constant → Bool
  | _, _, [] => true
  | moves, gap, constant :: later =>
      let gap := gap + constant.codeShapes.length
      match constant.trailing? with
      | none => notesNear moves gap later
      | some _ => gap < 19 && notesNear false (if moves then gap else 0) later

variable {constant : Constant}

theorem shapesWithComma_eq (isTrailing : constant.IsTrailing) :
    constant.shapesWithComma = constant.codeShapes ++ inlineShapes constant.trailing? := by
  obtain ⟨name, initializer, note⟩ := constant
  rcases isTrailing with noteIs | ⟨text, line, noteIs, -⟩
  · obtain rfl : note = .absent := noteIs
    simp [shapesWithComma, stemShapes, codeShapes, trailing?, ConstantNote.before?,
      ConstantNote.at?, inlineShapes]
  · obtain rfl : note = .after text true := noteIs
    simp [shapesWithComma, stemShapes, codeShapes, trailing?, ConstantNote.before?,
      ConstantNote.at?, inlineShapes]

theorem shapesWithComma_absent (constant : Constant) :
    ({ constant with note := .absent } : Constant).shapesWithComma = constant.codeShapes := by
  rw [shapesWithComma_eq (Or.inl rfl)]
  exact List.append_nil _

theorem firstNote?_plain (later : List Constant) (absent : constant.trailing? = none) :
    firstNote? (constant :: later) = firstNote? later := by
  rw [firstNote?, List.findSome?_cons, absent]
  rfl

theorem dropFirstNote_of_none : ∀ {constants : List Constant}, firstNote? constants = none →
    dropFirstNote constants = constants
  | [], _ => rfl
  | constant :: later, absent => by
      rw [firstNote?, List.findSome?_eq_none_iff, List.forall_mem_cons] at absent
      rw [dropFirstNote, absent.1, if_neg (by simp),
        dropFirstNote_of_none (List.findSome?_eq_none_iff.mpr absent.2)]

theorem codeShapes_free (constant : Constant) :
    ∀ shape ∈ constant.codeShapes, shape.1.endsSearch = false := by
  obtain ⟨name, initializer, note⟩ := constant
  cases initializer <;> simp [codeShapes, initializerShapes, Token.Kind.endsSearch]

end Outline.Constant

namespace Token

open Outline

/-- A comment of one line has nothing to be outdented. -/
theorem outdent_line {token : Token} {line : List Char} (isLine : token.value.toList = '/' :: line)
    (inLine : '\n' ∉ line) : token.outdent = token := by
  have whole : ('/' :: line).splitOn '\n' = ['/' :: line] :=
    List.splitOn_eq_singleton (by simpa using inLine)
  have unindented : (('/' :: line).takeWhile Text.isIndent).length = 0 := rfl
  have same : outdentLines token.column token.value.toList = token.value.toList := by
    rw [isLine, outdentLines, whole, List.map_singleton, unindented]
    cases token.column <;> simp [List.intercalate]
  rw [outdent, same, String.ofList_toList]

/-- The tokens of a constant: those of its code, which end no search, and its comment. -/
theorem spells_constant {constant : Constant} {tokens : List Token}
    (isTrailing : constant.IsTrailing) (spelled : Spells tokens constant.shapesWithComma) :
    ∃ code notes, tokens = code ++ notes ∧ Spells code constant.codeShapes ∧
      (∀ token ∈ code, token.kind.endsSearch = false) ∧
      (constant.trailing? = none ∧ notes = [] ∨ ∃ text note, constant.trailing? = some text ∧
        notes = [note] ∧ note.kind = .inlineComment ∧ note.value = text ∧ note.outdent = note) := by
  rw [Constant.shapesWithComma_eq isTrailing] at spelled
  obtain ⟨code, notes, rfl, inCode, inNotes⟩ := spells_append.mp spelled
  refine ⟨code, notes, rfl, inCode, ?_, ?_⟩
  · exact fun token member => constant.codeShapes_free _ (inCode.shape_mem token member)
  · rcases isTrailing with noteIs | ⟨text, line, noteIs, isLine, inLine⟩
    · have absent : constant.trailing? = none := by rw [Constant.trailing?, noteIs]; rfl
      rw [absent] at inNotes
      exact Or.inl ⟨absent, spells_nil.mp inNotes⟩
    · have present : constant.trailing? = some text := by rw [Constant.trailing?, noteIs]; rfl
      rw [present] at inNotes
      obtain ⟨note, later, rfl, kindIs, valueIs, inLater⟩ := spells_cons.mp inNotes
      obtain rfl := spells_nil.mp inLater
      refine Or.inr ⟨text, note, present, rfl, kindIs, valueIs, ?_⟩
      exact outdent_line (by rw [valueIs, isLine]) inLine

/-- The comments that are moved and the tokens that stay when the constants are arranged. -/
structure Keeps (moves : Bool) (constants : List Constant) (moved kept : List Token) : Prop where
  moved : Spells moved
    (Constant.inlineShapes (if moves then Constant.firstNote? constants else none))
  kept : Spells kept
    (Constant.listShapes true (if moves then Constant.dropFirstNote constants else constants))

namespace Keeps

variable {constant : Constant} {later : List Constant} {code kept : List Token} {note : Token}

theorem moved_eq_nil {constants : List Constant} {moved : List Token}
    (keeps : Keeps false constants moved kept) : moved = [] :=
  spells_nil.mp keeps.moved

/-- A constant without a comment. -/
theorem plain {moves : Bool} {moved : List Token} (isTrailing : constant.IsTrailing)
    (absent : constant.trailing? = none) (inCode : Spells code constant.codeShapes)
    (keeps : Keeps moves later moved kept) :
    Keeps moves (constant :: later) moved (code ++ kept) := by
  have shapes : constant.shapesWithComma = constant.codeShapes := by
    rw [Constant.shapesWithComma_eq isTrailing, absent]
    exact List.append_nil _
  have rest : Constant.dropFirstNote (constant :: later) =
      constant :: Constant.dropFirstNote later := by
    simp [Constant.dropFirstNote, absent]
  refine ⟨?_, ?_⟩
  · rw [Constant.firstNote?_plain later absent]
    exact keeps.moved
  · rw [rest, ← apply_ite (constant :: ·), Enumeration.listShapes_cons true _ _ (Or.inl rfl),
      shapes]
    exact spells_append.mpr ⟨code, kept, rfl, inCode, keeps.kept⟩

/-- A constant whose comment goes in front of the keyword. -/
theorem lead {text : String} (present : constant.trailing? = some text)
    (inline : note.kind = .inlineComment) (isText : note.value = text)
    (inCode : Spells code constant.codeShapes) (keeps : Keeps false later [] kept) :
    Keeps true (constant :: later) [note] (code ++ kept) := by
  refine ⟨?_, ?_⟩
  · rw [if_pos rfl, Constant.firstNote?, List.findSome?_cons, present]
    exact spells_cons.mpr ⟨note, [], rfl, inline, isText, rfl⟩
  · rw [if_pos rfl, Constant.dropFirstNote, present, Option.isSome_some, if_pos rfl,
      Enumeration.listShapes_cons true _ _ (Or.inl rfl), Constant.shapesWithComma_absent]
    exact spells_append.mpr ⟨code, kept, rfl, inCode, keeps.kept⟩

/-- A constant whose comment stays. -/
theorem trail {text : String} (isTrailing : constant.IsTrailing)
    (present : constant.trailing? = some text) (inline : note.kind = .inlineComment)
    (isText : note.value = text) (inCode : Spells code constant.codeShapes)
    (keeps : Keeps false later [] kept) :
    Keeps false (constant :: later) [] (code ++ note :: kept) := by
  refine ⟨rfl, ?_⟩
  rw [if_neg Bool.false_ne_true, Enumeration.listShapes_cons true _ _ (Or.inl rfl),
    Constant.shapesWithComma_eq isTrailing, present, List.append_assoc]
  refine spells_append.mpr ⟨code, note :: kept, rfl, inCode, ?_⟩
  exact spells_cons.mpr ⟨note, kept, rfl, inline, isText, keeps.kept⟩

end Keeps

/-- Arranging the constants behind `front`, the token `anchor` that ends the search from the first
of their comments, and `crossed` tokens that do not. The first comment is moved if it may be, and
a comment that stands too far off is an error. -/
structure Arranges (constants : List Constant) (front : List Token) (anchor : Token)
    (crossed tokens : List Token) : Prop where
  near : Constant.notesNear (attracts front anchor) crossed.length constants = true →
    ∃ moved kept, Keeps (attracts front anchor) constants moved kept ∧
      ((attracts front anchor = true → (Constant.firstNote? constants).isSome = true) →
        Sealed (front ++ (moved ++ anchor :: (crossed ++ kept)))) ∧
      ∀ ahead, arrangeFrom (front ++ anchor :: crossed) (tokens ++ ahead) =
        arrangeFrom (front ++ (moved ++ anchor :: (crossed ++ kept))) ahead
  far : Constant.notesNear (attracts front anchor) crossed.length constants = false → ∀ ahead,
    (arrangeFrom (front ++ anchor :: crossed) (tokens ++ ahead)).error = some .noKeyword

namespace Arranges

variable {constant : Constant} {later : List Constant} {front crossed code rest : List Token}
  {anchor note : Token} {text : String}

theorem nil (nearest : Nearest front anchor crossed) : Arranges [] front anchor crossed [] := by
  refine ⟨fun _ => ⟨[], [], ⟨?_, ?_⟩, fun isSome => ?_, by simp⟩, (nomatch ·)⟩
  · cases attracts front anchor <;> rfl
  · cases attracts front anchor <;> rfl
  · refine ⟨front, anchor, crossed, by simp, nearest, ?_⟩
    by_contra moves
    exact Bool.false_ne_true (isSome (by simpa using moves))

/-- The code of a constant is passed before its comment is looked at. -/
theorem pass_code (codeFree : ∀ token ∈ code, token.kind.endsSearch = false)
    (front : List Token) (anchor : Token) (crossed notes ahead : List Token) :
    arrangeFrom (front ++ anchor :: crossed) (code ++ notes ++ rest ++ ahead) =
      arrangeFrom (front ++ anchor :: (crossed ++ code)) (notes ++ (rest ++ ahead)) := by
  rw [List.append_assoc, List.append_assoc, arrangeFrom_free code codeFree]
  simp

theorem plain (isTrailing : constant.IsTrailing) (absent : constant.trailing? = none)
    (inCode : Spells code constant.codeShapes)
    (codeFree : ∀ token ∈ code, token.kind.endsSearch = false)
    (onward : Arranges later front anchor (crossed ++ code) rest) :
    Arranges (constant :: later) front anchor crossed (code ++ [] ++ rest) := by
  have near : Constant.notesNear (attracts front anchor) crossed.length (constant :: later) =
      Constant.notesNear (attracts front anchor) (crossed ++ code).length later := by
    rw [Constant.notesNear, absent, List.length_append, inCode.length_eq]
  constructor <;> rw [near]
  · intro isNear
    obtain ⟨moved, kept, keeps, isSealed, arranged⟩ := onward.near isNear
    refine ⟨moved, code ++ kept, keeps.plain isTrailing absent inCode, ?_, fun ahead => ?_⟩
    · rw [Constant.firstNote?_plain later absent, ← List.append_assoc crossed]
      exact isSealed
    · rw [pass_code codeFree, List.nil_append, arranged, List.append_assoc]
  · intro isFar ahead
    rw [pass_code codeFree, List.nil_append, onward.far isFar]

/-- A comment is placed if it is near enough, and the rest is arranged behind what that leaves. -/
theorem noted {front' crossed' : List Token} {anchor' : Token}
    (present : constant.trailing? = some text) (inCode : Spells code constant.codeShapes)
    (codeFree : ∀ token ∈ code, token.kind.endsSearch = false)
    (nearest : Nearest front anchor crossed) (inline : note.kind = .inlineComment)
    (isLine : note.outdent = note)
    (placed : placeNote front anchor (crossed ++ code) note = front' ++ anchor' :: crossed')
    (gap : crossed'.length = if attracts front anchor then (crossed ++ code).length else 0)
    (stays : attracts front' anchor' = false)
    (onward : Arranges later front' anchor' crossed' rest)
    (keeps : ∀ kept, Keeps false later [] kept → ∃ moved kept',
      Keeps (attracts front anchor) (constant :: later) moved kept' ∧
        front' ++ anchor' :: (crossed' ++ kept) =
          front ++ (moved ++ anchor :: (crossed ++ kept'))) :
    Arranges (constant :: later) front anchor crossed (code ++ [note] ++ rest) := by
  have near : Constant.notesNear (attracts front anchor) crossed.length (constant :: later) =
      ((crossed ++ code).length < 19 && Constant.notesNear false crossed'.length later) := by
    rw [Constant.notesNear, present, gap, List.length_append, inCode.length_eq]
  obtain ⟨onwardNear, onwardFar⟩ := onward
  rw [stays] at onwardNear onwardFar
  by_cases isNear : (crossed ++ code).length < 19
  · have step (ahead : List Token) :
        arrangeFrom (front ++ anchor :: crossed) (code ++ [note] ++ rest ++ ahead) =
          arrangeFrom (front' ++ anchor' :: crossed') (rest ++ ahead) := by
      rw [pass_code codeFree, List.singleton_append,
        arrangeFrom_near (nearest.append codeFree) isNear inline, isLine, placed]
    rw [decide_eq_true isNear, Bool.true_and] at near
    constructor <;> rw [near]
    · intro laterNear
      obtain ⟨lifted, kept, keepsLater, isSealed, arranged⟩ := onwardNear laterNear
      obtain rfl := keepsLater.moved_eq_nil
      obtain ⟨moved, kept', keepsAll, whole⟩ := keeps kept keepsLater
      rw [List.nil_append, whole] at isSealed
      refine ⟨moved, kept', keepsAll, fun _ => isSealed (nomatch ·), fun ahead => ?_⟩
      rw [step, arranged, List.nil_append, whole]
    · intro laterFar ahead
      rw [step, onwardFar laterFar]
  · rw [decide_eq_false isNear, Bool.false_and] at near
    constructor <;> rw [near]
    · exact (nomatch ·)
    · intro _ ahead
      rw [pass_code codeFree, List.singleton_append,
        arrangeFrom_far (nearest.append codeFree) (by omega) inline]

end Arranges

/-- The run over all constants. The induction is on them, and what is arranged already grows: by
the comment that was moved, or up to the comment that stays, which ends the next search. -/
theorem arranges_constants (constants : List Constant) :
    (∀ constant ∈ constants, constant.IsTrailing) →
      ∀ {front : List Token} {anchor : Token} {crossed tokens : List Token},
        Nearest front anchor crossed → Spells tokens (Constant.listShapes true constants) →
        Arranges constants front anchor crossed tokens := by
  induction constants with
  | nil =>
      intro _ front anchor crossed tokens nearest spelled
      obtain rfl := spells_nil.mp spelled
      exact Arranges.nil nearest
  | cons constant later ih =>
      intro trailing front anchor crossed tokens nearest spelled
      obtain ⟨isTrailing, laterTrailing⟩ := List.forall_mem_cons.mp trailing
      rw [Enumeration.listShapes_cons true _ _ (Or.inl rfl)] at spelled
      obtain ⟨inConstant, rest, rfl, constantSpelled, restSpelled⟩ := spells_append.mp spelled
      obtain ⟨code, notes, rfl, inCode, codeFree, noNote | withNote⟩ :=
        spells_constant isTrailing constantSpelled
      · obtain ⟨absent, rfl⟩ := noNote
        exact Arranges.plain isTrailing absent inCode codeFree
          (ih laterTrailing (nearest.append codeFree) restSpelled)
      · obtain ⟨text, note, present, rfl, inline, isText, isLine⟩ := withNote
        cases moves : attracts front anchor with
        | true =>
            have further : Nearest (front ++ [note]) anchor (crossed ++ code) :=
              ⟨by simp, nearest.ends, (nearest.append codeFree).free⟩
            refine Arranges.noted present inCode codeFree nearest inline isLine ?_
              (by rw [if_pos moves]) ?_ (ih laterTrailing further restSpelled)
              fun kept keeps => ⟨[note], code ++ kept, ?_, by simp⟩
            · rw [placeNote, if_pos moves, List.append_cons]
            · simp [attracts, documented, inline]
            · rw [moves]
              exact keeps.lead present inline isText inCode
        | false =>
            have further : Nearest (front ++ anchor :: (crossed ++ code)) note [] :=
              ⟨by simp, by rw [inline]; rfl, by simp⟩
            refine Arranges.noted present inCode codeFree nearest inline isLine ?_
              (by simp [moves]) ?_ (ih laterTrailing further restSpelled)
              fun kept keeps => ⟨[], code ++ note :: kept, ?_, by simp⟩
            · rw [placeNote, moves, if_neg Bool.false_ne_true]
              simp
            · simp [attracts, inline]
            · rw [moves]
              exact keeps.trail isTrailing present inline isText inCode

theorem listShapes_free : ∀ {constants : List Constant},
    (∀ constant ∈ constants, constant.IsTrailing) → Constant.firstNote? constants = none →
    ∀ shape ∈ Constant.listShapes true constants, shape.1.endsSearch = false
  | [], _, _ => by simp [Constant.listShapes]
  | constant :: later, trailing, absent => by
      rw [Constant.firstNote?, List.findSome?_eq_none_iff, List.forall_mem_cons] at absent
      rw [List.forall_mem_cons] at trailing
      rw [Enumeration.listShapes_cons true _ _ (Or.inl rfl),
        Constant.shapesWithComma_eq trailing.1, absent.1, Constant.inlineShapes, Option.map_none,
        Option.toList_none, List.append_nil, List.forall_mem_append]
      exact ⟨Constant.codeShapes_free constant,
        listShapes_free trailing.2 (List.findSome?_eq_none_iff.mpr absent.2)⟩

/-- The comment that an enumeration without comments in it is documented by: the first among the
tokens behind it that end a search, if that is an inline comment. -/
def leadingNote? (after : List Token) : Option String :=
  (after.find? fun token => token.kind.endsSearch).bind fun token =>
    if token.kind = .inlineComment then some token.outdent.value else none

/-- The name `property` can only follow right behind a property's type. -/
theorem awaitsPropertyName_behind {stop : Token} (isEnd : stop.kind = .blockEnd)
    (before : List Token) {code : List Token}
    (free : ∀ token ∈ code, token.kind.endsSearch = false) :
    awaitsPropertyName (before ++ stop :: code) = false := by
  rcases List.eq_nil_or_concat code with rfl | ⟨code, last, rfl⟩
  · rw [awaitsPropertyName, List.reverse_append, List.reverse_singleton, List.singleton_append]
    split <;> simp_all
  · have noKeyword : ∀ token ∈ stop :: code, token.kind ≠ .keyword := by
      intro token member isKeyword
      rcases List.mem_cons.mp member with rfl | inCode
      · rw [isEnd] at isKeyword
        cases isKeyword
      · have isFree := free token (by simp [inCode])
        rw [isKeyword] at isFree
        cases isFree
    rcases List.eq_nil_or_concat (stop :: code) with empty | ⟨front, previous, split⟩
    · cases empty
    · have isOther : previous.kind ≠ .keyword := noKeyword previous (by rw [split]; simp)
      have order : (before ++ stop :: code.concat last).reverse =
          last :: previous :: (before ++ front).reverse := by
        rw [List.concat_eq_append, ← List.cons_append, split]
        simp
      rw [awaitsPropertyName, order]
      simp [isOther]

theorem settled_endsSearch {done : List Token} (noName : awaitsPropertyName done = false)
    (token : Token) : (settled done token).kind.endsSearch = token.kind.endsSearch := by
  rw [settled, noName, Bool.and_false, if_neg Bool.false_ne_true]
  split <;> rfl

/-- Behind a keyword that still may have a comment, the first comment, keyword or header line
decides: an inline comment goes in front of the keyword, and with all else nothing does. -/
theorem tokens_of_attracts {front inner after : List Token} {anchor stop : Token}
    (nearest : Nearest front anchor (inner ++ [stop])) (isEnd : stop.kind = .blockEnd)
    (moves : attracts front anchor = true)
    (succeeds : (arrangeFrom (front ++ anchor :: (inner ++ [stop])) after).error = none) :
    ∃ moved later, Spells moved (Constant.inlineShapes (leadingNote? after)) ∧
      (arrangeFrom (front ++ anchor :: (inner ++ [stop])) after).tokens =
        front ++ (moved ++ anchor :: (inner ++ [stop] ++ later)) := by
  cases first : after.find? fun token => token.kind.endsSearch with
  | none =>
      have free : ∀ token ∈ after, token.kind.endsSearch = false := by simpa using first
      refine ⟨[], after, by rw [leadingNote?, first]; rfl, ?_⟩
      have whole := arrangeFrom_free after free (front ++ anchor :: (inner ++ [stop])) []
      rw [List.append_nil] at whole
      rw [whole, arrangeFrom]
      simp
  | some token =>
      obtain ⟨ends, code, ahead, rfl, notBefore⟩ := List.find?_eq_some_iff_append.mp first
      have free : ∀ token ∈ code, token.kind.endsSearch = false := by simpa using notBefore
      rw [arrangeFrom_free code free] at succeeds ⊢
      by_cases inline : token.kind = .inlineComment
      · have whole : front ++ anchor :: (inner ++ [stop]) ++ code =
            front ++ anchor :: (inner ++ [stop] ++ code) := by simp
        rw [whole] at succeeds ⊢
        by_cases near : (inner ++ [stop] ++ code).length < 19
        · have isSealed : Sealed (front ++ [token.outdent] ++ anchor :: (inner ++ [stop])) := by
            refine ⟨front ++ [token.outdent], anchor, inner ++ [stop], rfl,
              ⟨by simp, nearest.ends, nearest.free⟩, ?_⟩
            have isNote : token.outdent.kind = .inlineComment := inline
            simp [attracts, documented, isNote]
          obtain ⟨later, tokens⟩ := tokens_of_stays ahead (Or.inl isSealed : Stays _ code)
          refine ⟨[token.outdent], later, ?_, ?_⟩
          · rw [leadingNote?, first, Option.bind_some, if_pos inline]
            exact spells_cons.mpr ⟨token.outdent, [], rfl, inline, rfl, rfl⟩
          · rw [arrangeFrom_near (nearest.append free) near inline, placeNote, if_pos moves]
            simpa using tokens
        · rw [arrangeFrom_far (nearest.append free) (by omega) inline] at succeeds
          cases succeeds
      · rw [arrangeFrom_other inline, List.append_assoc]
        have noName : awaitsPropertyName (front ++ anchor :: (inner ++ [stop]) ++ code) =
            false := by
          have whole : front ++ anchor :: (inner ++ [stop]) ++ code =
              front ++ anchor :: inner ++ stop :: code := by simp
          rw [whole]
          exact awaitsPropertyName_behind isEnd _ free
        have stays : Stays (front ++ anchor :: (inner ++ [stop]))
            (code ++ [settled (front ++ anchor :: (inner ++ [stop]) ++ code) token]) := by
          refine Or.inr ⟨by simp, _, List.mem_append_right _ (List.mem_singleton_self _), ?_⟩
          rw [settled_endsSearch noName, ends]
        obtain ⟨later, tokens⟩ := tokens_of_stays ahead stays
        refine ⟨[], later, ?_, ?_⟩
        · rw [leadingNote?, first, Option.bind_some, if_neg inline]
          rfl
        · rw [tokens]
          simp

/-- The tokens of an enumeration around its constants. -/
structure Encloses (name : String) (keyword word start stop : Token) : Prop where
  keyword : keyword.shape = (.keyword, "enum")
  word : word.shape = (.element, name)
  start : start.shape = (.blockStart, "\x7b")
  stop : stop.shape = (.blockEnd, "\x7d")

theorem spells_enumeration {name : String} {constants : List Constant} {tokens : List Token} :
    Spells tokens (Member.enumeration name constants true).shapes ↔
      ∃ keyword word start inner stop, tokens = keyword :: word :: start :: (inner ++ [stop]) ∧
        Encloses name keyword word start stop ∧
        Spells inner (Constant.listShapes true constants) := by
  constructor
  · intro spelled
    obtain ⟨keyword, tokens, rfl, isKeyword, spelled⟩ := List.map_eq_cons_iff.mp spelled
    obtain ⟨word, tokens, rfl, isWord, spelled⟩ := List.map_eq_cons_iff.mp spelled
    obtain ⟨start, tokens, rfl, isStart, spelled⟩ := List.map_eq_cons_iff.mp spelled
    obtain ⟨inner, back, rfl, inInner, inBack⟩ := List.map_eq_append_iff.mp spelled
    obtain ⟨stop, rfl, isStop⟩ := List.map_eq_singleton_iff.mp inBack
    exact ⟨keyword, word, start, inner, stop, rfl, ⟨isKeyword, isWord, isStart, isStop⟩, inInner⟩
  · rintro ⟨keyword, word, start, inner, stop, rfl, encloses, inInner⟩
    simp only [Spells, List.map_cons, List.map_append, List.map_nil, encloses.keyword,
      encloses.word, encloses.start, encloses.stop, Member.shapes] at inInner ⊢
    rw [inInner]

namespace Encloses

variable {name : String} {keyword word start stop : Token} {front : List Token}

theorem isKeyword (encloses : Encloses name keyword word start stop) : keyword.kind = .keyword :=
  congrArg Prod.fst encloses.keyword

theorem isEnd (encloses : Encloses name keyword word start stop) : stop.kind = .blockEnd :=
  congrArg Prod.fst encloses.stop

theorem attracts_eq (encloses : Encloses name keyword word start stop) (front : List Token) :
    attracts front keyword = !documented front := by
  simp [attracts, encloses.isKeyword]

theorem nearest (encloses : Encloses name keyword word start stop) (nonempty : front ≠ []) :
    Nearest front keyword [word, start] := by
  have wordKind : word.kind = .element := congrArg Prod.fst encloses.word
  have startKind : start.kind = .blockStart := congrArg Prod.fst encloses.start
  exact ⟨nonempty, by rw [encloses.isKeyword]; rfl, by simp [wordKind, startKind, Kind.endsSearch]⟩

theorem stop_free (encloses : Encloses name keyword word start stop) :
    ∀ token ∈ [stop], token.kind.endsSearch = false := by
  simp [encloses.isEnd, Kind.endsSearch]

theorem arrangeFrom_opened (encloses : Encloses name keyword word start stop)
    (nonempty : front ≠ []) (ahead : List Token) :
    arrangeFrom front (keyword :: word :: start :: ahead) =
      arrangeFrom (front ++ keyword :: [word, start]) ahead := by
  have isEnum : keyword.value = "enum" := congrArg Prod.snd encloses.keyword
  have same : settled front keyword = keyword := by
    simp [settled, encloses.isKeyword, isEnum, isComment, Kind.isComment]
  have passed := arrangeFrom_free [word, start] (encloses.nearest nonempty).free
    (front ++ [keyword]) ahead
  rw [arrangeFrom_other (by simp [encloses.isKeyword]), same]
  simpa using passed

end Encloses

/-- The comment that goes in front of an enumeration's keyword. -/
def liftedNote? (front : List Token) (constants : List Constant) (after : List Token) :
    Option String :=
  if documented front then none else (Constant.firstNote? constants).or (leadingNote? after)

def keptConstants (lifted : Option String) (constants : List Constant) : List Constant :=
  if lifted.isSome then Constant.dropFirstNote constants else constants

/-- The tokens of an enumeration behind `front`, as `after` lets them be arranged. -/
def HoldsEnumeration (name : String) (constants : List Constant) (front after tokens : List Token) :
    Prop :=
  ∃ moved kept later,
    Spells moved (Constant.inlineShapes (liftedNote? front constants after)) ∧
    Spells kept (Member.enumeration name
      (keptConstants (liftedNote? front constants after) constants) true).shapes ∧
    tokens = front ++ (moved ++ (kept ++ later))

section

variable {name : String} {constants : List Constant} {keyword word start stop : Token}
  {front kept : List Token}

/-- No comment of its own keeps the enumeration from one that follows. -/
theorem holdsEnumeration_bare (encloses : Encloses name keyword word start stop)
    (nonempty : front ≠ []) (trailing : ∀ constant ∈ constants, constant.IsTrailing)
    (isBare : documented front = false) (absent : Constant.firstNote? constants = none)
    (spelled : Spells kept (Constant.listShapes true constants)) {after : List Token}
    (succeeds : (arrangeFrom (front ++ keyword :: word :: start :: (kept ++ [stop]))
      after).error = none) :
    HoldsEnumeration name constants front after
      (arrangeFrom (front ++ keyword :: word :: start :: (kept ++ [stop])) after).tokens := by
  have keptFree : ∀ token ∈ kept ++ [stop], token.kind.endsSearch = false := by
    refine List.forall_mem_append.mpr ⟨fun token member => ?_, encloses.stop_free⟩
    exact listShapes_free trailing absent _ (spelled.shape_mem token member)
  have lifted : liftedNote? front constants after = leadingNote? after := by
    rw [liftedNote?, isBare, absent]
    rfl
  have same : keptConstants (leadingNote? after) constants = constants := by
    rw [keptConstants, Constant.dropFirstNote_of_none absent, ite_self]
  have nearest : Nearest front keyword (word :: start :: kept ++ [stop]) :=
    (encloses.nearest nonempty).append keptFree
  obtain ⟨moved, later, inMoved, tokens⟩ := tokens_of_attracts nearest encloses.isEnd
    (by rw [encloses.attracts_eq, isBare]; rfl) succeeds
  refine ⟨moved, keyword :: word :: start :: (kept ++ [stop]), later, ?_, ?_, ?_⟩
  · rwa [lifted]
  · rw [lifted, same]
    exact spells_enumeration.mpr ⟨keyword, word, start, kept, stop, rfl, encloses, spelled⟩
  · simpa using tokens

/-- A comment before the keyword or behind a constant keeps off all that follow. -/
theorem holdsEnumeration_noted {moved : List Token}
    (encloses : Encloses name keyword word start stop)
    (isNoted : documented front = false → (Constant.firstNote? constants).isSome = true)
    (keeps : Keeps (!documented front) constants moved kept)
    (isSealed : Sealed (front ++ (moved ++ keyword :: word :: start :: (kept ++ [stop]))))
    (after : List Token) :
    HoldsEnumeration name constants front after
      (arrangeFrom (front ++ (moved ++ keyword :: word :: start :: (kept ++ [stop])))
        after).tokens := by
  have lifted : liftedNote? front constants after =
        (if !documented front then Constant.firstNote? constants else none) ∧
      keptConstants (liftedNote? front constants after) constants =
        if !documented front then Constant.dropFirstNote constants else constants := by
    cases before : documented front with
    | true => simp [liftedNote?, keptConstants, before]
    | false =>
        obtain ⟨text, present⟩ := Option.isSome_iff_exists.mp (isNoted before)
        simp [liftedNote?, keptConstants, before, present]
  obtain ⟨later, tokens⟩ := tokens_of_stays after (Or.inl isSealed : Stays _ [])
  rw [List.append_nil] at tokens
  refine ⟨moved, keyword :: word :: start :: (kept ++ [stop]), later, ?_, ?_, ?_⟩
  · rw [lifted.1]
    exact keeps.moved
  · rw [lifted.2]
    exact spells_enumeration.mpr ⟨keyword, word, start, kept, stop, rfl, encloses, keeps.kept⟩
  · rw [tokens]
    simp

end

/-- An enumeration whose comments all are near enough is arranged, and the rest behind it. -/
theorem arrangeFrom_enumeration {name : String} {constants : List Constant}
    {front tokens : List Token} (trailing : ∀ constant ∈ constants, constant.IsTrailing)
    (nonempty : front ≠ [])
    (spelled : Spells tokens (Member.enumeration name constants true).shapes) :
    (Constant.notesNear (!documented front) 2 constants = true →
      ∃ done, ∀ after, arrangeFrom front (tokens ++ after) = arrangeFrom done after ∧
        ((arrangeFrom done after).error = none →
          HoldsEnumeration name constants front after (arrangeFrom done after).tokens)) ∧
    (Constant.notesNear (!documented front) 2 constants = false → ∀ after,
      (arrangeFrom front (tokens ++ after)).error = some .noKeyword) := by
  obtain ⟨keyword, word, start, inner, stop, rfl, encloses, inInner⟩ :=
    spells_enumeration.mp spelled
  have opened (after : List Token) :
      arrangeFrom front (keyword :: word :: start :: (inner ++ [stop]) ++ after) =
        arrangeFrom (front ++ keyword :: [word, start]) (inner ++ ([stop] ++ after)) := by
    rw [← List.append_assoc]
    exact encloses.arrangeFrom_opened nonempty (inner ++ [stop] ++ after)
  obtain ⟨near, far⟩ := arranges_constants constants trailing (encloses.nearest nonempty) inInner
  rw [encloses.attracts_eq] at near far
  refine ⟨fun isNear => ?_, fun isFar after => by rw [opened, far isFar]⟩
  obtain ⟨moved, kept, keeps, isSealed, arranged⟩ := near isNear
  have whole : front ++ (moved ++ keyword :: ([word, start] ++ kept)) ++ [stop] =
      front ++ (moved ++ keyword :: word :: start :: (kept ++ [stop])) := by simp
  refine ⟨front ++ (moved ++ keyword :: word :: start :: (kept ++ [stop])), fun after =>
    ⟨by rw [opened, arranged, arrangeFrom_free [stop] encloses.stop_free, whole], ?_⟩⟩
  by_cases isNoted : documented front = false → (Constant.firstNote? constants).isSome = true
  · intro _
    have stays := (isSealed (by simpa using isNoted)).append encloses.stop_free
    rw [whole] at stays
    exact holdsEnumeration_noted encloses isNoted keeps stays after
  · intro succeeds
    obtain ⟨isBare, absent⟩ : documented front = false ∧ Constant.firstNote? constants = none := by
      simpa using isNoted
    obtain ⟨inMoved, inKept⟩ := keeps
    rw [isBare, Bool.not_false, if_pos rfl, absent] at inMoved
    rw [isBare, Bool.not_false, if_pos rfl, Constant.dropFirstNote_of_none absent] at inKept
    obtain rfl := spells_nil.mp inMoved
    exact holdsEnumeration_bare encloses nonempty trailing isBare absent inKept succeeds

end Token

end QmlDoc
