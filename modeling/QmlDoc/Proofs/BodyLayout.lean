import QmlDoc.Proofs.PrintedMembers

set_option autoImplicit false

namespace QmlDoc

namespace Element

section

variable (separate : Bool)

/-- The pieces for some elements of a body that are behind `earlier` ones. -/
def piecesBehind (earlier later : List Element) : List Piece :=
  (placeElements print separate (contextBehind earlier) later).pieces

/-- The text that decides whether an empty line is due before an element: its second one. -/
def lookedText (element : Element) : String :=
  (print (printed print element)).text

def leadBehind (earlier : List Element) (element : Element) : List Piece :=
  let context := contextBehind earlier
  if element.isComment = false ∧ element.isPublic ≠ context.isPublic then
    [.access element.isPublic]
  else if context.afterLine && isLineComment element.lookedText && separate then [.separator]
  else []

def partBehind (earlier : List Element) (element : Element) : List Piece :=
  if element.print.text = "" then []
  else leadBehind separate earlier element ++ [.member element (element.textBehind earlier)]

theorem placeElement_pieces (earlier : List Element) (element : Element) :
    (placeElement print separate (contextBehind earlier) element).1.pieces =
      partBehind separate earlier element := by
  have step := (placeElement_eq print separate (contextBehind earlier) element).1
  rw [step, partBehind, leadBehind, textBehind, accessIn, Context.lead, memberPiece, lookedText]
  by_cases quiet : isQuiet print element = true
  · have fixed := printed_of_isQuiet quiet
    have noLine : isLineComment "" = false := rfl
    simp only [quiet, if_true, fixed, Function.iterate_fixed fixed, ne_eq, not_true, if_false]
    by_cases empty : (print element).text = ""
    · simp [empty, noLine]
    · have isComment : element.isComment = true := by
        simpa [isQuiet, empty] using quiet
      simp [empty, isComment]
  · have hasText := text_ne_of_not_isQuiet quiet
    have stillHas := text_iterate_ne_of_not_isQuiet quiet
    have notComment : element.isComment = false := by
      simp only [isQuiet, Bool.or_eq_true, not_or, Bool.not_eq_true] at quiet
      exact quiet.1
    simp only [quiet, hasText, stillHas, notComment, Bool.false_eq_true, if_false, true_and]

theorem contextBehind_nil : contextBehind [] = {} :=
  rfl

theorem piecesBehind_cons (earlier : List Element) (element : Element) (later : List Element) :
    piecesBehind separate earlier (element :: later) =
      partBehind separate earlier element ++
        piecesBehind separate (earlier ++ [element]) later := by
  rw [piecesBehind, placeElements, ← placeElement_pieces, piecesBehind,
    ← placeElement_context separate]

theorem piecesBehind_append (first later : List Element) : ∀ earlier : List Element,
    piecesBehind separate earlier (first ++ later) =
      piecesBehind separate earlier first ++ piecesBehind separate (earlier ++ first) later := by
  induction first with
  | nil =>
      intro earlier
      rw [List.append_nil]
      rfl
  | cons element first ih =>
      intro earlier
      rw [List.cons_append, piecesBehind_cons, piecesBehind_cons, ih, List.append_assoc,
        List.append_assoc]
      rfl

end

/-- The access behind a piece. The text of a signal ends with an access of its own. -/
def Piece.accessBehind (access : Bool) : Piece → Bool
  | .access isPublic => isPublic
  | .member (.signal _) _ => true
  | _ => access

/-- The access behind some pieces. A class starts out as private. -/
def accessBehind (pieces : List Piece) : Bool :=
  pieces.foldl Piece.accessBehind false

def Piece.element? : Piece → Option Element
  | .member element _ => some element
  | _ => none

def Piece.access? : Piece → Option Bool
  | .access isPublic => some isPublic
  | _ => none

/-- A piece for an element other than a comment that stands alone. -/
def Piece.IsDeclared (piece : Piece) : Prop :=
  ∃ element text, piece = .member element text ∧ element.isComment = false

/-- Pieces that fit the access in force before them: an access changes it and is needed by the
piece behind it, and all but bare comments stand under their own access. -/
def Sectioned : Bool → List Piece → Prop
  | _, [] => True
  | access, .access isPublic :: later =>
      access ≠ isPublic ∧ (∃ piece behind, later = piece :: behind ∧ piece.IsDeclared) ∧
        Sectioned isPublic later
  | access, .separator :: later => Sectioned access later
  | access, .member element text :: later =>
      (element.isComment = false → access = element.isPublic) ∧
        Sectioned (Piece.accessBehind access (.member element text)) later

theorem accessBehind_member {access : Bool} {element : Element} (text : String)
    (fits : element.isComment = false → access = element.isPublic) :
    Piece.accessBehind access (.member element text) = access := by
  cases element with
  | signal s => exact (fits rfl).symm
  | _ => rfl

theorem Sectioned.later {access : Bool} {piece : Piece} {later : List Piece}
    (sectioned : Sectioned access (piece :: later)) :
    Sectioned (piece.accessBehind access) later := by
  cases piece with
  | access isPublic => exact sectioned.2.2
  | separator => exact sectioned
  | member element text => exact sectioned.2

theorem Sectioned.behind {before after : List Piece} : ∀ {access : Bool},
    Sectioned access (before ++ after) →
      Sectioned (before.foldl Piece.accessBehind access) after := by
  induction before with
  | nil => exact id
  | cons piece before ih => exact fun sectioned => ih sectioned.later

/-- The accesses take turns, and the first of them is not the one in force. -/
theorem Sectioned.alternate {pieces : List Piece} : ∀ {access : Bool} {i : Nat} {isPublic : Bool},
    Sectioned access pieces → (pieces.filterMap Piece.access?)[i]? = some isPublic →
      isPublic = if i % 2 = 0 then !access else access := by
  induction pieces with
  | nil => intro access i isPublic _ present; simp at present
  | cons piece later ih =>
      intro access i isPublic sectioned present
      have onward := sectioned.later
      cases piece with
      | separator => exact ih onward present
      | member element text =>
          have same : Piece.accessBehind access (.member element text) = access :=
            accessBehind_member text sectioned.1
          rw [same] at onward
          exact ih onward present
      | access other =>
          have changes : other = !access := by
            have differs := sectioned.1
            cases access <;> cases other <;> simp_all
          cases i with
          | zero =>
              obtain rfl : other = isPublic := Option.some.inj present
              simpa using changes
          | succ i =>
              have turn := ih onward present
              change isPublic = if i % 2 = 0 then !other else other at turn
              rw [turn, changes]
              by_cases even : i % 2 = 0
              · have odd : (i + 1) % 2 ≠ 0 := by omega
                simp [even, odd]
              · have even' : (i + 1) % 2 = 0 := by omega
                simp [even, even']

theorem isQuiet_of_isComment {element : Element} (isComment : element.isComment = true) :
    isQuiet print element = true := by
  rw [isQuiet, isComment, Bool.true_or]

theorem isQuiet_of_text {element : Element} (empty : element.print.text = "") :
    isQuiet print element = true := by
  rw [isQuiet, empty, decide_eq_true rfl, Bool.or_true]

theorem isQuiet_of_declared {element : Element} (notComment : element.isComment = false)
    (hasText : element.print.text ≠ "") : ¬isQuiet print element = true := by
  simp [isQuiet, notComment, hasText]

/-- One element keeps the sections in order. -/
theorem sectioned_part (separate : Bool) (earlier : List Element) (element : Element)
    (later : List Piece)
    (sectioned : Sectioned (contextBehind (earlier ++ [element])).isPublic later) :
    Sectioned (contextBehind earlier).isPublic (partBehind separate earlier element ++ later) := by
  rw [contextBehind_concat] at sectioned
  rw [partBehind]
  by_cases empty : element.print.text = ""
  · rw [if_pos (isQuiet_of_text empty)] at sectioned
    rw [if_pos empty]
    exact sectioned
  · rw [if_neg empty]
    cases isComment : element.isComment with
    | true =>
        obtain ⟨text, rfl⟩ : ∃ text, element = .comment text := by
          cases element with
          | comment text => exact ⟨text, rfl⟩
          | _ => cases isComment
        rw [if_pos (isQuiet_of_isComment isComment)] at sectioned
        have here : Sectioned (contextBehind earlier).isPublic
            (.member (.comment text) (textBehind earlier (.comment text)) :: later) :=
          ⟨fun isDeclared => (nomatch isDeclared), sectioned⟩
        rw [leadBehind, if_neg (by simp [isComment])]
        split
        · exact here
        · exact here
    | false =>
        rw [if_neg (isQuiet_of_declared isComment empty)] at sectioned
        have here : Sectioned element.isPublic
            (.member element (element.textBehind earlier) :: later) := by
          refine ⟨fun _ => rfl, ?_⟩
          rw [accessBehind_member _ fun _ => rfl]
          exact sectioned
        rw [leadBehind]
        by_cases changes : element.isPublic = (contextBehind earlier).isPublic
        · rw [if_neg (by simp [changes]), ← changes]
          split
          · exact here
          · exact here
        · rw [if_pos ⟨isComment, changes⟩]
          exact ⟨Ne.symm changes, ⟨_, _, rfl, element, _, rfl, isComment⟩, here⟩

/-- A body is in sections, from any place on. -/
theorem sectioned_piecesBehind (separate : Bool) (later : List Element) : ∀ earlier : List Element,
    Sectioned (contextBehind earlier).isPublic (piecesBehind separate earlier later) := by
  induction later with
  | nil => exact fun _ => trivial
  | cons element later ih =>
      intro earlier
      rw [piecesBehind_cons]
      exact sectioned_part separate earlier element _ (ih (earlier ++ [element]))

theorem leadBehind_element? (separate : Bool) (earlier : List Element) (element : Element) :
    (leadBehind separate earlier element).filterMap Piece.element? = [] := by
  rw [leadBehind]
  split
  · rfl
  · split <;> rfl

/-- A body shows the elements that have a text, in order. -/
theorem piecesBehind_element? (separate : Bool) (later : List Element) :
    ∀ earlier : List Element, (piecesBehind separate earlier later).filterMap Piece.element? =
      later.filter fun element => element.print.text ≠ "" := by
  induction later with
  | nil => exact fun _ => rfl
  | cons element later ih =>
      intro earlier
      rw [piecesBehind_cons, List.filterMap_append, ih, partBehind]
      by_cases empty : element.print.text = ""
      · simp [empty]
      · rw [if_neg empty, List.filterMap_append, leadBehind_element?]
        simp [empty, Piece.element?]

theorem not_mem_leadBehind (separate : Bool) (earlier : List Element) (element other : Element)
    (text : String) : .member other text ∉ leadBehind separate earlier element := by
  rw [leadBehind]
  split
  · simp
  · split <;> simp

/-- Where the piece of an element stands in a body. -/
theorem piecesBehind_member (separate : Bool) {later : List Element} {element : Element}
    {text : String} {after : List Piece} : ∀ {earlier : List Element} {before : List Piece},
    piecesBehind separate earlier later = before ++ .member element text :: after →
      ∃ front back, later = front ++ element :: back ∧
        text = element.textBehind (earlier ++ front) ∧
        after = piecesBehind separate (earlier ++ front ++ [element]) back := by
  induction later with
  | nil =>
      intro earlier before order
      simp [piecesBehind, placeElements] at order
  | cons first later ih =>
      intro earlier before order
      rw [piecesBehind_cons, partBehind] at order
      have inLater {before : List Piece}
          (order : piecesBehind separate (earlier ++ [first]) later =
            before ++ .member element text :: after) :
          ∃ front back, first :: later = front ++ element :: back ∧
            text = element.textBehind (earlier ++ front) ∧
            after = piecesBehind separate (earlier ++ front ++ [element]) back := by
        obtain ⟨front, back, rfl, textIs, afterIs⟩ := ih order
        rw [← List.append_cons] at textIs afterIs
        exact ⟨first :: front, back, rfl, textIs, afterIs⟩
      by_cases empty : first.print.text = ""
      · rw [if_pos empty] at order
        exact inLater order
      · rw [if_neg empty, List.append_assoc, List.singleton_append] at order
        rcases List.append_eq_append_iff.mp order with ⟨gap, rfl, rest⟩ | ⟨gap, lead, rest⟩
        · cases gap with
          | nil =>
              obtain ⟨⟨⟩, rfl⟩ := List.cons.inj rest
              exact ⟨[], later, rfl, by rw [List.append_nil], by rw [List.append_nil]⟩
          | cons piece gap =>
              obtain ⟨-, rest⟩ := List.cons.inj rest
              exact inLater rest
        · cases gap with
          | nil =>
              obtain ⟨⟨⟩, rfl⟩ := List.cons.inj rest
              exact ⟨[], later, rfl, by rw [List.append_nil], by rw [List.append_nil]⟩
          | cons piece gap =>
              obtain ⟨rfl, -⟩ := List.cons.inj rest
              have inLead : .member element text ∈ leadBehind separate earlier first := by
                rw [lead]
                simp
              exact absurd inLead (not_mem_leadBehind separate earlier first element text)

theorem textBehind_of_printed {element : Element} (fixed : printed print element = element)
    (earlier : List Element) : element.textBehind earlier = element.print.text := by
  rw [textBehind, Function.iterate_fixed fixed]

/-- The accesses of a body fit its elements. -/
structure AccessesFit (elements : List Element) (body : List Piece) : Prop where
  shown : body.filterMap Piece.element? = elements.filter fun element => element.print.text ≠ ""
  member : ∀ before element text after, body = before ++ .member element text :: after →
    element.isComment = false → accessBehind before = element.isPublic
  needed : ∀ before isPublic after, body = before ++ .access isPublic :: after →
    accessBehind before ≠ isPublic ∧ ∃ piece behind, after = piece :: behind ∧ piece.IsDeclared
  alternate : ∀ i isPublic, (body.filterMap Piece.access?)[i]? = some isPublic →
    isPublic = decide (i % 2 = 0)
  signal : ∀ s text, .member (.signal s) text ∈ body → Text.endsWith text "public:" = true

theorem accessesFit_body (separate : Bool) (elements : List Element) :
    AccessesFit elements (piecesBehind separate [] elements) := by
  have sectioned : Sectioned false (piecesBehind separate [] elements) :=
    sectioned_piecesBehind separate elements []
  refine ⟨piecesBehind_element? separate elements [], ?_, ?_, ?_, ?_⟩
  · intro before element text after order isDeclared
    rw [order] at sectioned
    exact sectioned.behind.1 isDeclared
  · intro before isPublic after order
    rw [order] at sectioned
    exact ⟨sectioned.behind.1, sectioned.behind.2.1⟩
  · intro i isPublic present
    have turn := sectioned.alternate present
    by_cases even : i % 2 = 0
    · simpa [even] using turn
    · simpa [even] using turn
  · intro s text member
    obtain ⟨before, after, order⟩ := List.append_of_mem member
    obtain ⟨front, back, -, textIs, -⟩ := piecesBehind_member separate order
    rw [textIs, textBehind_of_printed rfl]
    change Text.endsWith s.text "public:" = true
    rw [Text.endsWith, List.isSuffixOf_iff_suffix, Signal.text, String.toList_append]
    exact List.suffix_append _ _

end Element

namespace Document

def around (doc : Document) (base : Option String) (body : List Element.Piece) : String :=
  "\n".intercalate (doc.usingLines ++ doc.info.opening ++ [doc.info.classLine base] ++
    body.map Element.Piece.text ++ ["\x7d;"] ++ doc.footerComments ++ doc.info.closing)

/-- A class is its body in a frame, unless an alias in the name of its base type is faulty. -/
theorem print_around (doc : Document) :
    (∃ error, doc.resolveBase.2 = some error ∧ doc.print.outcome = .error error) ∨
      ∃ base, doc.print.outcome =
        .ok (doc.around base (Element.piecesBehind doc.info.separateBlocks [] doc.elements)) := by
  rw [print]
  split
  next error failed => exact Or.inl ⟨error, by rw [failed], rfl⟩
  next => exact Or.inr ⟨_, rfl⟩

end Document

def TypeInfo.around (info : TypeInfo) (body : List Element.Piece) : String :=
  "\n".intercalate (info.qualify.opening ++ [info.qualify.classLine info.qualify.base?] ++
    body.map Element.Piece.text ++ ["\x7d;"] ++ info.qualify.closing)

theorem Element.print_around (info : TypeInfo) (elements : List Element) :
    (Element.print (.inlineType info elements)).text =
      info.around (piecesBehind info.separateBlocks [] elements) := by
  rw [print_inlineType, TypeInfo.around, piecesBehind, contextBehind_nil]

namespace Document

end Document

end QmlDoc
