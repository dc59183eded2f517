import QmlDoc.Proofs.BodyLayout

set_option autoImplicit false

namespace QmlDoc

theorem isLineComment_iff (text : String) :
    isLineComment text = true ↔ ∃ rest, text.toList = '/' :: '/' :: rest := by
  have slashes : "//".toList = ['/', '/'] := rfl
  rw [isLineComment, Text.startsWith, slashes, List.isPrefixOf_iff_prefix]
  constructor
  · rintro ⟨rest, order⟩
    exact ⟨rest, order.symm⟩
  · rintro ⟨rest, order⟩
    exact ⟨rest, order.symm⟩

/-- What follows a text does not matter unless it starts with a slash. -/
theorem isLineComment_eq {text first : String} {c : Char} {rest : List Char}
    (starts : text.toList = first.toList ++ c :: rest) (other : c ≠ '/') :
    isLineComment text = isLineComment first := by
  rw [Bool.eq_iff_iff, isLineComment_iff, isLineComment_iff, starts]
  match first.toList with
  | [] => simp [other]
  | [_] => simp [other]
  | _ :: _ :: _ => simp

namespace Annotation

/-- Two texts that are the same, or the same up to a place where neither has a slash. -/
def SameFront (first second : List Char) : Prop :=
  first = second ∨ ∃ front c d rest rest', first = front ++ c :: rest ∧
    second = front ++ d :: rest' ∧ c ≠ '/' ∧ d ≠ '/'

theorem SameFront.cons {first second : List Char} (same : SameFront first second) (c : Char) :
    SameFront (c :: first) (c :: second) := by
  rcases same with rfl | ⟨front, d, e, rest, rest', rfl, rfl, other, other'⟩
  · exact Or.inl rfl
  · exact Or.inr ⟨c :: front, d, e, rest, rest', rfl, rfl, other, other'⟩

theorem SameFront.isLineComment_eq {first second : String}
    (same : SameFront first.toList second.toList) :
    isLineComment first = isLineComment second := by
  rw [Bool.eq_iff_iff, isLineComment_iff, isLineComment_iff]
  rcases same with same | ⟨front, c, d, rest, rest', firstIs, secondIs, other, other'⟩
  · rw [same]
  · rw [firstIs, secondIs]
    match front with
    | [] => simp [other, other']
    | [_] => simp [other, other']
    | _ :: _ :: _ => simp

theorem ne_slash_of_paramAt {c : Char} {rest : List Char} {entry : Piece × Nat}
    (found : paramAt (c :: rest) = some entry) : c ≠ '/' := by
  rintro rfl
  cases found

/-- Taking types of parameters out of a comment changes nothing before the first command. -/
theorem sameFront_pieces (text : List Char) :
    SameFront text ((piecesFrom 0 text).flatMap Piece.text) := by
  induction text with
  | nil => exact Or.inl rfl
  | cons c rest ih =>
      rw [piecesFrom]
      rcases Option.eq_none_or_eq_some (paramAt (c :: rest)) with found | ⟨entry, found⟩
      · rw [found]
        exact ih.cons c
      · obtain ⟨piece, length⟩ := entry
        obtain ⟨type, name, rfl, -⟩ := paramAt_length found
        have start : (Piece.param type name).text = '@' :: ("param ".toList ++ name.toList) := rfl
        rw [found]
        dsimp only
        rw [List.flatMap_cons, start, List.cons_append]
        exact Or.inr ⟨[], c, '@', _, _, rfl, rfl, ne_slash_of_paramAt found, by decide⟩

/-- The first annotation of a text is at the front of some end of it. -/
theorem find?_atFront {place : Place} {text : List Char} {found : Found}
    (isFound : find? place text = some found) :
    ∃ front rest here, text = front ++ rest ∧ atFront? place rest = some here ∧
      found = { here with before := front ++ here.before } := by
  induction text generalizing found with
  | nil => cases isFound
  | cons c rest ih =>
      rw [find?] at isFound
      split at isFound
      next here atFront =>
        obtain rfl := Option.some.inj isFound
        exact ⟨[], c :: rest, here, rfl, atFront, rfl⟩
      next =>
        obtain ⟨later, isLater, rfl⟩ := Option.map_eq_some_iff.mp isFound
        obtain ⟨front, behind, here, rfl, atFront, rfl⟩ := ih isLater
        exact ⟨c :: front, behind, here, rfl, atFront, rfl⟩

theorem atFront?_typeAt {place : Place} {text : List Char} {here : Found}
    (atFront : atFront? place text = some here) :
    ∃ rest, place.behind text = some rest ∧ typeAt rest = some (here.type, here.behind) ∧
      here.before = text.take (text.length - rest.length) := by
  rw [atFront?] at atFront
  split at atFront
  · cases atFront
  next rest isBehind =>
    obtain ⟨⟨type, later⟩, isType, rfl⟩ := Option.map_eq_some_iff.mp atFront
    exact ⟨rest, isBehind, isType, rfl⟩

/-- The command for the result stays before the place of its type. -/
theorem atFront?_result {text : List Char} {here : Found}
    (atFront : atFront? .result text = some here) :
    ∃ c rest before, text = c :: rest ∧ here.before = c :: before ∧ c ≠ '/' := by
  obtain ⟨rest, isBehind, -, beforeIs⟩ := atFront?_typeAt atFront
  obtain ⟨after, isCommand, restIs⟩ := Option.map_eq_some_iff.mp isBehind
  have shorter : rest.length < text.length := by
    have room := commandAt_length isCommand
    have word : "return".toList.length = 6 := rfl
    have fewer : rest.length ≤ after.length := by
      rw [← restIs]
      split
      · rw [List.length_cons]
        omega
      · exact Nat.le_refl _
    omega
  cases text with
  | nil => cases isCommand
  | cons c more =>
      obtain ⟨n, taken⟩ : ∃ n, (c :: more).length - rest.length = n + 1 :=
        Nat.exists_eq_add_one_of_ne_zero (by omega)
      rw [taken, List.take_succ_cons] at beforeIs
      refine ⟨c, more, _, rfl, beforeIs, ?_⟩
      rintro rfl
      cases isCommand

theorem atFront?_anywhere {text : List Char} {here : Found}
    (atFront : atFront? .anywhere text = some here) :
    ∃ c rest, text = c :: rest ∧ Text.isBlank c = true := by
  obtain ⟨rest, isBehind, isType, -⟩ := atFront?_typeAt atFront
  obtain rfl := Option.some.inj isBehind
  rw [typeAt] at isType
  dsimp only at isType
  split at isType
  · cases isType
  next someGap =>
    cases text with
    | nil => exact absurd rfl someGap
    | cons c rest =>
        refine ⟨c, rest, rfl, ?_⟩
        by_contra solid
        rw [Text.spanBlank, List.takeWhile_cons_of_neg solid] at someGap
        exact someGap rfl

theorem typeAt_type {text type behind : List Char} (found : typeAt text = some (type, behind)) :
    ∃ c rest, type = c :: rest ∧ c ≠ '/' := by
  rw [typeAt] at found
  dsimp only at found
  split at found
  · cases found
  · split at found
    · cases found
    next after _ =>
      split at found
      · cases found
      next someType =>
        obtain ⟨rfl, -⟩ := Prod.mk.inj (Option.some.inj found)
        cases typeIs : after.takeWhile isTypeChar with
        | nil => simp [typeIs] at someType
        | cons c rest =>
            refine ⟨c, rest, rfl, ?_⟩
            rintro rfl
            have inType : '/' ∈ after.takeWhile isTypeChar := by simp [typeIs]
            have isType := List.all_eq_true.mp List.all_takeWhile '/' inType
            exact absurd isType (by decide)

/-- A type that is taken out of a comment is no comment itself. -/
theorem isLineComment_take_type {place : Place} {comment type : String}
    (opens : isLineComment (take place comment type).2 = true) : isLineComment type = true := by
  rw [take] at opens
  split at opens
  · exact opens
  next found isFound =>
    obtain ⟨front, rest, here, -, atFront, rfl⟩ := find?_atFront isFound
    obtain ⟨_, -, isType, -⟩ := atFront?_typeAt atFront
    obtain ⟨c, more, typeIs, other⟩ := typeAt_type isType
    obtain ⟨later, order⟩ := (isLineComment_iff _).mp opens
    rw [String.toList_ofList, typeIs] at order
    exact absurd (List.cons.inj order).1 other

/-- Taking the type of the result out of a comment changes nothing before its command. -/
theorem sameFront_take_result (comment type : String) :
    SameFront comment.toList (take .result comment type).1.toList := by
  rw [take]
  split
  · exact Or.inl rfl
  next found isFound =>
    obtain ⟨front, rest, here, textIs, atFront, rfl⟩ := find?_atFront isFound
    obtain ⟨c, more, before, rfl, beforeIs, other⟩ := atFront?_result atFront
    refine Or.inr ⟨front, c, c, more, before ++ here.behind, textIs, ?_, other, other⟩
    simp [beforeIs]

/-- Taking a type out of a comment keeps its first two characters if they are no blanks. -/
theorem take_anywhere_front {comment : String} {c d : Char} {rest : List Char}
    (starts : comment.toList = c :: d :: rest) (solid : Text.isBlank c = false)
    (solid' : Text.isBlank d = false) (type : String) :
    ∃ rest', (take .anywhere comment type).1.toList = c :: d :: rest' := by
  rw [take]
  split
  · exact ⟨rest, starts⟩
  next found isFound =>
    obtain ⟨front, behind, here, textIs, atFront, rfl⟩ := find?_atFront isFound
    obtain ⟨blank, more, rfl, isBlank⟩ := atFront?_anywhere atFront
    rw [starts] at textIs
    -- the annotation starts with a blank, and so behind the two characters
    cases front with
    | nil =>
        obtain ⟨rfl, -⟩ := List.cons.inj textIs
        rw [solid] at isBlank
        cases isBlank
    | cons first front =>
        cases front with
        | nil =>
            obtain ⟨rfl, -⟩ := List.cons.inj (List.cons.inj textIs).2
            rw [solid'] at isBlank
            cases isBlank
        | cons second front =>
            simp only [List.cons_append, List.cons.injEq] at textIs
            obtain ⟨rfl, rfl, -⟩ := textIs
            exact ⟨front ++ here.before ++ here.behind, by simp⟩

end Annotation

theorem Property.isLineComment_text (p : Property) :
    isLineComment p.text = p.doc.opensWithLine := by
  rw [Doc.opensWithLine]
  cases isInline : p.doc.isInline with
  | false =>
      have starts : ∃ rest, p.text.toList = p.doc.text.toList ++ '\n' :: rest := by
        simp [text, Doc.before, isInline]
      obtain ⟨rest, starts⟩ := starts
      exact isLineComment_eq starts (by decide)
  | true =>
      have starts : ∃ rest, p.text.toList = p.remark.toList ++ 'Q' :: rest := by
        simp [text, Doc.before, isInline]
      obtain ⟨rest, starts⟩ := starts
      rw [isLineComment_eq starts (by decide), remark]
      cases p.isDefault <;> cases p.isReadonly <;> rfl

theorem Property.isInline_settle (p : Property) : p.settle.doc.isInline = p.doc.isInline := by
  simp only [settle]

theorem Property.settle_front {p : Property} {c d : Char} {rest : List Char}
    (starts : p.doc.text.toList = c :: d :: rest) (solid : Text.isBlank c = false)
    (solid' : Text.isBlank d = false) : ∃ rest', p.settle.doc.text.toList = c :: d :: rest' := by
  simp only [settle]
  exact Annotation.take_anywhere_front starts solid solid' p.type

/-- A property that comes to start with a line comment when it is printed again has a comment that
has not the form of one. -/
theorem Property.not_comment_of_late {p : Property}
    (looked : isLineComment p.settle.settle.text = false)
    (opens : isLineComment p.settle.settle.settle.text = true) :
    p.doc.isInline = false ∧ isLineComment p.doc.text = false ∧
      Text.startsWith p.doc.text "/*" = false := by
  rw [isLineComment_text, Doc.opensWithLine, isInline_settle, isInline_settle] at looked opens
  rw [isInline_settle, Bool.and_eq_true, Bool.not_eq_true'] at opens
  obtain ⟨isInline, opens⟩ := opens
  rw [isInline, Bool.not_false, Bool.true_and] at looked
  have keeps {c d : Char} {rest : List Char} (starts : p.doc.text.toList = c :: d :: rest)
      (solid : Text.isBlank c = false) (solid' : Text.isBlank d = false) :
      ∃ rest', p.settle.settle.doc.text.toList = c :: d :: rest' := by
    obtain ⟨rest', starts'⟩ := settle_front starts solid solid'
    exact settle_front starts' solid solid'
  refine ⟨isInline, ?_, ?_⟩
  · by_contra isLine
    obtain ⟨rest, starts⟩ := (isLineComment_iff _).mp (Bool.of_not_eq_false isLine)
    obtain ⟨rest', starts'⟩ := keeps starts (by decide) (by decide)
    rw [(isLineComment_iff _).mpr ⟨rest', starts'⟩] at looked
    cases looked
  · by_contra isBlock
    have front := Bool.of_not_eq_false isBlock
    rw [Text.startsWith, List.isPrefixOf_iff_prefix] at front
    obtain ⟨rest, starts⟩ := front
    obtain ⟨rest', starts'⟩ := keeps starts.symm (by decide) (by decide)
    obtain ⟨rest'', starts''⟩ := settle_front starts' (by decide) (by decide)
    obtain ⟨other, order⟩ := (isLineComment_iff _).mp opens
    rw [starts''] at order
    cases order

theorem Function.isLineComment_text (f : Function) :
    isLineComment f.text = isLineComment (if f.doc.isInline then f.type else f.doc.text) := by
  cases isInline : f.doc.isInline with
  | false =>
      have starts : ∃ rest, f.text.toList = f.doc.text.toList ++ '\n' :: rest := by
        simp [text, Doc.before, isInline]
      obtain ⟨rest, starts⟩ := starts
      exact isLineComment_eq starts (by decide)
  | true =>
      have starts : ∃ rest, f.text.toList = f.type.toList ++ ' ' :: rest := by
        simp [text, Doc.before, isInline]
      obtain ⟨rest, starts⟩ := starts
      exact isLineComment_eq starts (by decide)

open Annotation (withoutParamTypes)

/-- A function that starts with a line comment when it is printed did so before. -/
theorem Function.isLineComment_settle (f : Function)
    (opens : isLineComment f.settle.1.text = true) : isLineComment f.text = true := by
  rw [isLineComment_text] at opens ⊢
  rw [settle_eq] at opens
  dsimp only at opens
  cases isInline : f.doc.isInline with
  | true =>
      rw [isInline] at opens
      exact Annotation.isLineComment_take_type opens
  | false =>
      rw [isInline] at opens
      have params := Annotation.sameFront_pieces f.doc.text.toList
      have result :=
        Annotation.sameFront_take_result (withoutParamTypes f.doc.text) f.type
      rw [← String.toList_ofList (l := List.flatMap _ _)] at params
      change isLineComment f.doc.text = true
      rw [params.isLineComment_eq]
      change isLineComment (withoutParamTypes f.doc.text) = true
      rw [result.isLineComment_eq]
      exact opens

theorem isLineComment_intercalate (first : String) {later : List String} (more : later ≠ []) :
    isLineComment ("\n".intercalate (first :: later)) = isLineComment first := by
  obtain ⟨next, later, rfl⟩ := List.exists_cons_of_ne_nil more
  have starts : ∃ rest, ("\n".intercalate (first :: next :: later)).toList =
      first.toList ++ '\n' :: rest := by
    simp [String.intercalate_cons_cons]
  obtain ⟨rest, starts⟩ := starts
  exact isLineComment_eq starts (by decide)

/-- What a type starts with comes from its name and its comments. -/
theorem TypeInfo.isLineComment_around (info : TypeInfo) (body : List Element.Piece) :
    isLineComment (info.around body) = (info.opening.head?.map isLineComment).getD false := by
  have opening : info.qualify.opening = info.opening := rfl
  rw [around, opening]
  cases info.opening with
  | nil =>
      have starts : ∃ rest, (info.qualify.classLine info.qualify.base?).toList =
          "".toList ++ 'c' :: rest := by
        simp [classLine]
      obtain ⟨rest, starts⟩ := starts
      rw [List.nil_append, List.append_assoc, List.append_assoc, List.singleton_append,
        isLineComment_intercalate _ (by simp), isLineComment_eq starts (by decide)]
      rfl
  | cons first later =>
      simp only [List.cons_append]
      rw [isLineComment_intercalate _ (by simp)]
      rfl

namespace Element

/-- Only a property can start with a line comment at its third printing and not at its second, and
only if its comment has not the form of one. -/
theorem property_of_late {element : Element} (looked : isLineComment element.lookedText = false)
    (opens : isLineComment (print (printed print (printed print element))).text = true) :
    ∃ p, element = .property p ∧ p.doc.isInline = false ∧ isLineComment p.doc.text = false ∧
      Text.startsWith p.doc.text "/*" = false := by
  rw [lookedText] at looked
  rcases printed_cases element with same | ⟨p, rfl, next⟩ | ⟨f, rfl, next⟩ |
    ⟨info, elements, after, rfl, next⟩
  · rw [same, same] at opens
    rw [same, opens] at looked
    cases looked
  · rw [next, printed, print_property, print_property] at opens
    rw [next, print_property] at looked
    exact ⟨p, rfl, Property.not_comment_of_late looked opens⟩
  · rw [next, printed, print_function, print_function] at opens
    rw [next, print_function] at looked
    have before := Function.isLineComment_settle _ opens
    rw [before] at looked
    cases looked
  · rw [next, printed, print_inlineType, print_around, TypeInfo.isLineComment_around] at opens
    rw [next, print_around, TypeInfo.isLineComment_around] at looked
    change (info.opening.head?.map isLineComment).getD false = true at opens
    change (info.opening.head?.map isLineComment).getD false = false at looked
    rw [opens] at looked
    cases looked

/-- A line comment that stands alone. -/
def Piece.isBareLine : Piece → Bool
  | .member (.comment _) text => isLineComment text
  | _ => false

/-- A line comment that stands alone is followed right away by a text that starts with another
line comment. -/
def LinesTouch (body : List Piece) : Prop :=
  ∃ before first next after, body = before ++ first :: next :: after ∧
    first.isBareLine = true ∧ isLineComment next.text = true

theorem linesTouch_cons (first : Piece) (later : List Piece) :
    LinesTouch (first :: later) ↔
      (first.isBareLine = true ∧
        (later.head?.map fun next => isLineComment next.text) = some true) ∨ LinesTouch later := by
  constructor
  · rintro ⟨before, bare, next, after, order, line, opens⟩
    cases before with
    | nil =>
        obtain ⟨rfl, rfl⟩ := List.cons.inj order
        exact Or.inl ⟨line, congrArg some opens⟩
    | cons _ before =>
        obtain ⟨-, rfl⟩ := List.cons.inj order
        exact Or.inr ⟨before, bare, next, after, rfl, line, opens⟩
  · rintro (⟨line, opens⟩ | ⟨before, bare, next, after, rfl, line, opens⟩)
    · obtain ⟨next, isNext, nextOpens⟩ := Option.map_eq_some_iff.mp opens
      obtain ⟨after, rfl⟩ := List.head?_eq_some_iff.mp isNext
      exact ⟨[], first, next, after, rfl, line, nextOpens⟩
    · exact ⟨first :: before, bare, next, after, rfl, line, opens⟩

instance decidableLinesTouch : (body : List Piece) → Decidable (LinesTouch body)
  | [] => .isFalse fun ⟨before, _, _, _, order, _⟩ => by simp at order
  | first :: later =>
      have := decidableLinesTouch later
      decidable_of_iff _ (linesTouch_cons first later).symm

/-- Behind a line comment that stands alone come elements without a text, and then one under the
same access whose text starts with a line comment. -/
structure RunsOn (front : List Element) (text : String) (gap : List Element) (element : Element) :
    Prop where
  line : isLineComment text = true
  silent : ∀ other ∈ gap, other.print.text = ""
  access : element.isComment = true ∨ element.isPublic = (contextBehind front).isPublic
  opens : isLineComment (element.textBehind (front ++ .comment text :: gap)) = true

theorem contextBehind_silent (earlier : List Element) {silent : Element}
    (empty : silent.print.text = "") :
    contextBehind (earlier ++ [silent]) = { contextBehind earlier with afterLine := false } := by
  have quiet := isQuiet_of_text empty
  rw [contextBehind_concat, if_pos quiet, ← isLineComment_of_isQuiet quiet, empty]
  rfl

/-- Elements without a text keep the access, and hide the comment before them. -/
theorem contextBehind_gap {gap : List Element} (silent : ∀ other ∈ gap, other.print.text = "") :
    ∀ earlier : List Element, contextBehind (earlier ++ gap) =
      if gap = [] then contextBehind earlier
      else { contextBehind earlier with afterLine := false } := by
  induction gap with
  | nil => simp
  | cons first gap ih =>
      intro earlier
      rw [List.forall_mem_cons] at silent
      rw [List.append_cons, ih silent.2, contextBehind_silent earlier silent.1,
        if_neg (List.cons_ne_nil first gap)]
      split <;> rfl

theorem contextBehind_line (front : List Element) {text : String}
    (line : isLineComment text = true) {gap : List Element}
    (silent : ∀ other ∈ gap, other.print.text = "") :
    contextBehind (front ++ .comment text :: gap) =
      { isPublic := (contextBehind front).isPublic, afterLine := decide (gap = []) } := by
  have behind : contextBehind (front ++ [.comment text]) =
      { contextBehind front with afterLine := true } := by
    rw [contextBehind_concat, if_pos (isQuiet_of_isComment rfl), isLine, line]
  rw [List.append_cons, contextBehind_gap silent, behind]
  by_cases neighbours : gap = []
  · simp [neighbours]
  · simp [neighbours]

theorem piecesBehind_silent (separate : Bool) {gap : List Element}
    (silent : ∀ other ∈ gap, other.print.text = "") :
    ∀ earlier : List Element, piecesBehind separate earlier gap = [] := by
  induction gap with
  | nil => exact fun _ => rfl
  | cons first gap ih =>
      intro earlier
      rw [List.forall_mem_cons] at silent
      rw [piecesBehind_cons, partBehind, if_pos silent.1, ih silent.2, List.append_nil]

/-- The first piece belongs to the first element that has a text. -/
theorem piecesBehind_first (separate : Bool) {later : List Element} {pieces : List Piece}
    (more : pieces ≠ []) : ∀ {earlier : List Element},
    piecesBehind separate earlier later = pieces →
      ∃ gap element back, later = gap ++ element :: back ∧
        (∀ other ∈ gap, other.print.text = "") ∧ element.print.text ≠ "" ∧
        pieces = leadBehind separate (earlier ++ gap) element ++
          .member element (element.textBehind (earlier ++ gap)) ::
            piecesBehind separate (earlier ++ gap ++ [element]) back := by
  induction later with
  | nil => exact fun order => absurd order.symm more
  | cons first later ih =>
      intro earlier order
      rw [piecesBehind_cons, partBehind] at order
      by_cases empty : first.print.text = ""
      · rw [if_pos empty] at order
        obtain ⟨gap, element, back, rfl, silent, hasText, piecesAre⟩ := ih order
        rw [← List.append_cons] at piecesAre
        exact ⟨first :: gap, element, back, rfl, List.forall_mem_cons.mpr ⟨empty, silent⟩, hasText,
          piecesAre⟩
      · rw [if_neg empty, List.append_assoc, List.singleton_append] at order
        refine ⟨[], first, later, rfl, fun _ member => absurd member List.not_mem_nil, empty, ?_⟩
        rw [List.append_nil]
        exact order.symm

/-- Nothing is written between a line comment and the next text under the same access that starts
with one, if an element without a text stands between them or the line comment is not seen. -/
theorem leadBehind_eq_nil_iff (front : List Element) {text : String}
    (line : isLineComment text = true) {gap : List Element}
    (silent : ∀ other ∈ gap, other.print.text = "") (element : Element) :
    leadBehind true (front ++ .comment text :: gap) element = [] ↔
      (element.isComment = true ∨ element.isPublic = (contextBehind front).isPublic) ∧
        (gap ≠ [] ∨ isLineComment element.lookedText = false) := by
  rw [leadBehind, contextBehind_line front line silent]
  by_cases neighbours : gap = [] <;> cases element.isComment <;>
    cases isLineComment element.lookedText <;>
    by_cases same : element.isPublic = (contextBehind front).isPublic <;>
    simp [neighbours, same]

theorem head_leadBehind_text {separate : Bool} {earlier : List Element} {element : Element}
    {piece : Piece} (inLead : piece ∈ leadBehind separate earlier element) :
    isLineComment piece.text = false := by
  rw [leadBehind] at inLead
  split at inLead
  · rw [List.mem_singleton.mp inLead]
    cases element.isPublic <;> rfl
  · split at inLead
    · rw [List.mem_singleton.mp inLead]
      rfl
    · cases inLead

/-- Two blocks of line comments touch in a body exactly if the elements run on from one to the
other, with an element without a text between them or because the second is not seen to start with
a line comment. -/
theorem linesTouch_iff (elements : List Element) :
    LinesTouch (piecesBehind true [] elements) ↔
      ∃ front text gap element back, elements = front ++ .comment text :: (gap ++ element :: back) ∧
        RunsOn front text gap element ∧
        (gap ≠ [] ∨ isLineComment element.lookedText = false) := by
  constructor
  · rintro ⟨before, bare, next, after, order, line, opens⟩
    obtain ⟨text, shown, rfl⟩ : ∃ text shown, bare = .member (.comment text) shown := by
      match bare with
      | .member (.comment text) shown => exact ⟨text, shown, rfl⟩
    obtain ⟨front, back, rfl, shownIs, afterIs⟩ := piecesBehind_member true order
    rw [textBehind_of_printed rfl] at shownIs
    obtain rfl : shown = text := shownIs
    obtain ⟨gap, element, back, rfl, silent, hasText, piecesAre⟩ :=
      piecesBehind_first true (List.cons_ne_nil next after) afterIs.symm
    rw [List.nil_append, ← List.append_cons] at piecesAre
    cases lead : leadBehind true (front ++ .comment shown :: gap) element with
    | cons piece more =>
        rw [lead] at piecesAre
        obtain ⟨rfl, -⟩ := List.cons.inj piecesAre
        have noLine := head_leadBehind_text (lead ▸ List.mem_cons_self)
        rw [opens] at noLine
        cases noLine
    | nil =>
        rw [lead] at piecesAre
        obtain ⟨rfl, -⟩ := List.cons.inj piecesAre
        obtain ⟨access, apart⟩ := (leadBehind_eq_nil_iff front line silent element).mp lead
        exact ⟨front, shown, gap, element, back, rfl, ⟨line, silent, access, opens⟩, apart⟩
  · rintro ⟨front, text, gap, element, back, rfl, runsOn, apart⟩
    have lead := (leadBehind_eq_nil_iff front runsOn.line runsOn.silent element).mpr
      ⟨runsOn.access, apart⟩
    have hasText : element.print.text ≠ "" := by
      intro empty
      have opens := runsOn.opens
      rw [textBehind_of_printed (printed_of_isQuiet (isQuiet_of_text empty)), empty] at opens
      cases opens
    have textIs : textBehind front (.comment text) = text := textBehind_of_printed rfl front
    have commentText : (print (.comment text)).text ≠ "" := by
      intro empty
      change text = "" at empty
      have line := runsOn.line
      rw [empty] at line
      cases line
    have place : front ++ [.comment text] ++ gap = front ++ .comment text :: gap :=
      (List.append_cons front (.comment text) gap).symm
    refine ⟨piecesBehind true [] front ++ leadBehind true front (.comment text),
      .member (.comment text) text,
      .member element (element.textBehind (front ++ .comment text :: gap)),
      piecesBehind true (front ++ .comment text :: gap ++ [element]) back, ?_, runsOn.line,
      runsOn.opens⟩
    rw [piecesBehind_append, piecesBehind_cons, piecesBehind_append,
      piecesBehind_silent true runsOn.silent, piecesBehind_cons, partBehind, partBehind,
      if_neg commentText, if_neg hasText, List.nil_append, place, lead, textIs]
    simp

end Element

namespace Document

/-- Where blocks of line comments are to be kept apart, in a class or in a type inside of it, a line
comment that stands alone touches the next one exactly if the elements run on to it, and either an
element without a text is between them or the next one is not seen in time. That happens only to a
property whose comment has not the form of one. -/
theorem print_lineBlocks (doc : Document) (info : TypeInfo) (elements : List Element) :
    let body := (Element.placeElements Element.print doc.info.separateBlocks {} doc.elements).pieces
    let inner := (Element.placeElements Element.print info.separateBlocks {} elements).pieces
    let touching (elements : List Element) := ∃ front text gap element back,
      elements = front ++ .comment text :: (gap ++ element :: back) ∧
        Element.RunsOn front text gap element ∧
        (gap ≠ [] ∨ isLineComment element.lookedText = false)
    ((∃ error, doc.resolveBase.2 = some error ∧ doc.print.outcome = .error error) ∨
        ∃ base, doc.print.outcome = .ok (doc.around base body)) ∧
      (doc.info.separateBlocks = true → (Element.LinesTouch body ↔ touching doc.elements)) ∧
      (Element.print (.inlineType info elements)).text = info.around inner ∧
      (info.separateBlocks = true → (Element.LinesTouch inner ↔ touching elements)) ∧
      ∀ front text gap element, Element.RunsOn front text gap element →
        isLineComment element.lookedText = false →
        ∃ p, element = .property p ∧ p.doc.isInline = false ∧ isLineComment p.doc.text = false ∧
          Text.startsWith p.doc.text "/*" = false := by
  refine ⟨doc.print_around, ?_, Element.print_around info elements, ?_, ?_⟩
  · intro separate
    rw [separate]
    exact Element.linesTouch_iff doc.elements
  · intro separate
    rw [separate]
    exact Element.linesTouch_iff elements
  · intro front text gap element runsOn looked
    have opens := runsOn.opens
    rw [Element.textBehind, Element.Context.trials] at opens
    split at opens
    · exact Element.property_of_late looked opens
    · rw [Element.lookedText] at looked
      rw [Function.iterate_one, looked] at opens
      cases opens

/-- The name of an object between two line comments: they become one block. -/
theorem print_lineBlocks_touch :
    let text := "Item \x7b\n    // first\n\n    // the name\n    id: root\n    // second\n" ++
      "    width: 10\n\x7d\n"
    let empty : Document := { info := { name := "A" } }
    let doc := (empty.read true (Token.tokenize text).tokens).document
    doc.info.separateBlocks = true ∧
      Element.LinesTouch (Element.placeElements Element.print true {} doc.elements).pieces ∧
      doc.print.outcome.toOption =
        some "class A : public QtQuick.Item \x7b\n// first\n// second\nvar width;\n\x7d;" := by
  decide +kernel

end Document

end QmlDoc
