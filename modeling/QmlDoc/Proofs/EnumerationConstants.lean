import QmlDoc.Document
import QmlDoc.Proofs.EnumerationLayout
import QmlDoc.Proofs.EnumerationNotes

set_option autoImplicit false

namespace QmlDoc

namespace Enumeration

theorem markLast_getElem? (enumerators : List Enumerator) : ∀ i : Nat,
    (markLast enumerators)[i]? = enumerators[i]?.map fun enumerator =>
      if i + 1 = enumerators.length then { enumerator with isLast := true } else enumerator := by
  fun_induction markLast enumerators with
  | case1 => exact fun _ => rfl
  | case2 enumerator =>
      intro i
      cases i <;> simp
  | case3 enumerator next later ih =>
      intro i
      cases i with
      | zero => simp
      | succ i =>
          rw [List.getElem?_cons_succ, List.getElem?_cons_succ, ih]
          simp only [List.length_cons, Nat.add_right_cancel_iff]

theorem markLast_forall₂ (enumerators : List Enumerator) :
    List.Forall₂ (fun marked enumerator => marked.doc = enumerator.doc) (markLast enumerators)
      enumerators := by
  fun_induction markLast enumerators with
  | case1 => exact .nil
  | case2 enumerator => exact .cons rfl .nil
  | case3 enumerator next later ih => exact .cons rfl ih

def elementsOf (tokens : List Token) : List Token :=
  tokens.filter fun token => token.kind = .element

theorem elementsOf_append (front back : List Token) :
    elementsOf (front ++ back) = elementsOf front ++ elementsOf back :=
  List.filter_append front back

theorem elementsOf_cons {token : Token} (isElement : token.kind = .element) (rest : List Token) :
    elementsOf (token :: rest) = token :: elementsOf rest :=
  List.filter_cons_of_pos (decide_eq_true isElement)

theorem elementsOf_other {token : Token} (other : token.kind ≠ .element) (rest : List Token) :
    elementsOf (token :: rest) = elementsOf rest :=
  List.filter_cons_of_neg (by simpa using other)

theorem elementsOf_eq_nil {tokens : List Token}
    (others : ∀ token ∈ tokens, token.kind ≠ .element) : elementsOf tokens = [] :=
  List.filter_eq_nil_iff.mpr fun token member => by simpa using others token member

theorem kind_ne_of_isComment {token : Token} (isComment : token.isComment = true) :
    token.kind ≠ .element := by
  rcases Token.isComment_iff.mp isComment with kindIs | kindIs <;> simp [kindIs]

theorem IsBetween.kind_ne {token : Token} (isBetween : IsBetween token) :
    token.kind ≠ .element := by
  rcases isBetween with isComment | ⟨kindIs, -⟩
  · exact kind_ne_of_isComment isComment
  · simp [kindIs]

theorem Detail.elementsOf_tokens (detail : Detail) :
    elementsOf detail.tokens = detail.given?.toList := by
  cases detail with
  | note token isComment =>
      exact elementsOf_other (kind_ne_of_isComment isComment) []
  | mark token isChar => exact elementsOf_other (by simp [isChar]) []
  | value equals notes word isEquals areNotes isWord =>
      rw [tokens, elementsOf_other (by simp [isEquals.1]), elementsOf_append,
        elementsOf_cons isWord,
        elementsOf_eq_nil fun note member => kind_ne_of_isComment (areNotes note member)]
      rfl

theorem elementsOf_details (details : List Detail) :
    elementsOf (details.flatMap Detail.tokens) = details.filterMap Detail.given? := by
  induction details with
  | nil => rfl
  | cons detail details ih =>
      rw [List.flatMap_cons, elementsOf_append, detail.elementsOf_tokens, ih, List.filterMap_cons]
      cases detail.given? <;> rfl

/-- Every element of a body is the name of a constant or the value of its initializer. -/
theorem Layout.elementsOf_tokens (layout : Layout) (before : List Token) :
    elementsOf layout.tokens = (layout.entriesFrom before).flatMap fun entry =>
      entry.name :: entry.details.filterMap Detail.given? := by
  have noBrace : ∀ brace : Option Token, (∀ token ∈ brace, token.kind = .blockEnd) →
      elementsOf brace.toList = [] := fun brace isEnd =>
    elementsOf_eq_nil fun token member => by simp [isEnd token (by simpa using member)]
  induction layout generalizing before with
  | stop brace isEnd => exact noBrace brace isEnd
  | between token isBetween later ih =>
      rw [tokens, elementsOf_other isBetween.kind_ne, ih, entriesFrom]
  | last name details brace isName isEnd =>
      rw [tokens, elementsOf_cons isName, elementsOf_append, elementsOf_details, noBrace _ isEnd]
      simp [entriesFrom]
  | more name details comma later isName isComma ih =>
      rw [tokens, elementsOf_cons isName, elementsOf_append, elementsOf_details,
        elementsOf_other (by simp [isComma.1]), ih [], entriesFrom, List.flatMap_cons]
      rfl

theorem Layout.enumerators_complete (layout : Layout) (name : String) :
    (layout.complete { name } none []).enumerators =
      markLast (layout.entries.map Entry.enumerator) := by
  rfl

theorem Layout.enumerators_eq_mapIdx (layout : Layout) (name : String) :
    (layout.complete { name } none []).enumerators = layout.entries.mapIdx fun i entry =>
      { entry.enumerator with isLast := decide (i + 1 = layout.entries.length) } := by
  apply List.ext_getElem?
  intro i
  rw [enumerators_complete, markLast_getElem?, List.getElem?_map, List.getElem?_mapIdx,
    Option.map_map, List.length_map]
  congr 1
  funext entry
  show (if i + 1 = layout.entries.length then _ else entry.enumerator) = _
  by_cases isLast : i + 1 = layout.entries.length
  · simp [isLast]
  · simp [isLast, Entry.enumerator]

theorem Layout.Describes.found_eq {layout : Layout} {name : Token} {r s : Reader}
    {found : Enumeration} (describes : layout.Describes name r s) (isRead : read r = .ok found s) :
    found = layout.complete { name := name.value } none [] := by
  rw [read_eq_ok_iff.mpr ⟨layout, name, describes, rfl⟩] at isRead
  exact (EStateM.Result.ok.inj isRead).1.symm

theorem exists_read_iff {r s : Reader} :
    (∃ found, read r = .ok found s) ↔
      ∃ (layout : Layout) (name : Token), layout.Describes name r s := by
  constructor
  · rintro ⟨found, isRead⟩
    obtain ⟨layout, name, describes, -⟩ := read_eq_ok_iff.mp isRead
    exact ⟨layout, name, describes⟩
  · rintro ⟨layout, name, describes⟩
    exact ⟨_, read_eq_ok_iff.mpr ⟨layout, name, describes, rfl⟩⟩

/-- What is printed of a constant before its comma. -/
def stem (enumerator : Enumerator) : String :=
  enumerator.doc.beforeIfAny ++ enumerator.name ++
    (if enumerator.initializer = "" then "" else " = " ++ enumerator.initializer)

/-- An enumeration is read exactly where its tokens have a layout. Its constants are then those of
the layout, in order, each with its last initializer, and all but the last are printed with a
comma. -/
theorem read_constants (r s : Reader) :
    ((∃ found, read r = .ok found s) ↔
      ∃ (layout : Layout) (name : Token), layout.Describes name r s) ∧
    ∀ found, read r = .ok found s →
      ∀ (layout : Layout) (name : Token), layout.Describes name r s →
        elementsOf layout.tokens = (layout.entries.flatMap fun entry =>
          entry.name :: entry.details.filterMap Detail.given?) ∧
        (found.enumerators.map fun enumerator =>
            (enumerator.name, enumerator.initializer, enumerator.isLast)) =
          (layout.entries.mapIdx fun i entry =>
            (entry.name.value, entry.initializer, decide (i + 1 = layout.entries.length))) ∧
        found.text = found.doc.beforeIfAny ++ "enum class " ++ found.name ++ " \x7b" ++
          found.doc.behindIfAny ++ "\n" ++
          String.join (found.enumerators.mapIdx fun i enumerator =>
            stem enumerator ++ (if i + 1 = found.enumerators.length then "" else ",") ++
              enumerator.doc.behindIfAny ++ "\n") ++ "\x7d;" := by
  refine ⟨exists_read_iff, ?_⟩
  intro found isRead layout name describes
  have constants : found.enumerators = layout.entries.mapIdx fun i entry =>
      { entry.enumerator with isLast := decide (i + 1 = layout.entries.length) } := by
    rw [describes.found_eq isRead, Layout.enumerators_eq_mapIdx]
  refine ⟨layout.elementsOf_tokens [], ?_, ?_⟩
  · rw [constants]
    apply List.ext_getElem?
    intro i
    rw [List.getElem?_map, List.getElem?_mapIdx, List.getElem?_mapIdx, Option.map_map]
    rfl
  · have lines : (found.enumerators.map fun enumerator => enumerator.text ++ "\n") =
        found.enumerators.mapIdx fun i enumerator =>
          stem enumerator ++ (if i + 1 = found.enumerators.length then "" else ",") ++
            enumerator.doc.behindIfAny ++ "\n" := by
      rw [constants, List.length_mapIdx]
      apply List.ext_getElem?
      intro i
      simp only [List.getElem?_map, List.getElem?_mapIdx, Option.map_map, Function.comp_def,
        Enumerator.text, stem, decide_eq_true_eq]
    rw [text, lines]

/-- Constants with a comma too many, comments in all places and no closing brace. -/
theorem read_constants_unclosed :
    let color : Token := ⟨.element, "Color", 0, 0⟩
    let comma : Token := ⟨.char, ",", 0, 0⟩
    let equals : Token := ⟨.char, "=", 0, 0⟩
    let comment : Token := ⟨.comment, "/* a */", 0, 0⟩
    let layout : Layout :=
      .between comma (.inr ⟨rfl, rfl⟩) <|
      .more ⟨.element, "Red", 0, 0⟩
        [.value equals [comment] ⟨.element, "1", 0, 0⟩ ⟨rfl, rfl⟩ (by simp [comment]; rfl) rfl]
        comma
        (.between comma (.inr ⟨rfl, rfl⟩) <| .between comment (.inl rfl) <|
          .last ⟨.element, "Green", 0, 0⟩
            [.value equals [] ⟨.element, "2", 0, 0⟩ ⟨rfl, rfl⟩ (by simp) rfl, .note comment rfl,
              .value equals [] ⟨.element, "3", 0, 0⟩ ⟨rfl, rfl⟩ (by simp) rfl] none rfl (by simp))
        rfl ⟨rfl, rfl⟩
    let r : Reader := ⟨color :: ⟨.blockStart, "\x7b", 0, 0⟩ :: layout.tokens, 0⟩
    layout.Describes color r ⟨[], 16⟩ ∧
      ∃ found, read r = .ok found ⟨[], 16⟩ ∧
        (found.enumerators.map fun enumerator =>
            (enumerator.name, enumerator.initializer, enumerator.isLast)) =
          [("Red", "1", false), ("Green", "3", true)] := by
  intro color comma equals comment layout r
  have describes : layout.Describes color r ⟨[], 16⟩ := by
    refine ⟨⟨.blockStart, "\x7b", 0, 0⟩, ⟨layout.tokens, 2⟩, ?_, rfl, rfl, ⟨rfl, rfl⟩, fun _ => rfl⟩
    exact ⟨⟨⟨.blockStart, "\x7b", 0, 0⟩ :: layout.tokens, 1⟩, ⟨[], rfl, by simp, rfl, rfl⟩, _,
      ⟨[], rfl, by simp, rfl, rfl⟩, rfl⟩
  obtain ⟨found, isRead⟩ := (read_constants r ⟨[], 16⟩).1.mpr ⟨layout, color, describes⟩
  have facts := (read_constants r ⟨[], 16⟩).2 found isRead layout color describes
  exact ⟨describes, found, isRead, facts.2.1.trans (by decide)⟩

/-- Whether a constant has a comment before it and an inline comment before its comma, but none
behind the comma. -/
def Entry.IsMixed (entry : Entry) : Prop :=
  (∃ comment ∈ entry.before?, comment.value ≠ "") ∧ entry.inside?.isSome ∧ entry.behind? = none

theorem Entry.mark_fits_iff (entry : Entry) :
    (entry.enumerator.doc.text ≠ "" → (entry.enumerator.doc.isInline = true ↔
        ∃ comment ∈ entry.source?, comment.kind = .inlineComment)) ↔ ¬entry.IsMixed := by
  rw [IsMixed, enumerator, source?]
  cases behind : entry.behind? with
  | some note =>
      have isInline : note.kind = .inlineComment := Token.kind_of_lastOf? behind
      simp [isInline]
  | none =>
      cases before : entry.before? with
      | some comment =>
          have isPlain : comment.kind = .comment := Token.kind_of_lastOf? before
          simp [isPlain]
      | none =>
          cases inside : entry.inside? with
          | some note => simp [kind_of_inside? inside]
          | none => simp

/-- The comment of every constant is that behind its comma, or else the one before it, or else the
one before its comma. It is marked as an inline comment if there is one behind or before the comma.
So the mark fits the comment unless the comments are mixed. -/
theorem read_constantDocs (r s : Reader) (found : Enumeration) (isRead : read r = .ok found s) :
    (∃ (layout : Layout) (name : Token), layout.Describes name r s) ∧
    ∀ (layout : Layout) (name : Token), layout.Describes name r s →
      List.Forall₂ (fun enumerator entry =>
        enumerator.doc.text = (entry.source?.map Token.value).getD "" ∧
        (enumerator.doc.isInline = true ↔ entry.behind?.isSome ∨ entry.inside?.isSome) ∧
        ((enumerator.doc.text ≠ "" → (enumerator.doc.isInline = true ↔
            ∃ comment ∈ entry.source?, comment.kind = .inlineComment)) ↔
          ¬entry.IsMixed)) found.enumerators layout.entries := by
  refine ⟨exists_read_iff.mp ⟨found, isRead⟩, ?_⟩
  intro layout name describes
  rw [describes.found_eq isRead, Layout.enumerators_complete]
  have docs := markLast_forall₂ (layout.entries.map Entry.enumerator)
  refine (List.forall₂_map_right_iff.mp docs).imp ?_
  intro enumerator entry sameDoc
  rw [sameDoc]
  exact ⟨rfl, by simp [Entry.enumerator], entry.mark_fits_iff⟩

/-- Two constants with an inline comment each, of which one has a comment before it as well. -/
theorem read_constantDocs_pair :
    let name : Token := ⟨.element, "Color", 0, 0⟩
    let red : Token := ⟨.inlineComment, "///< red", 0, 0⟩
    let before : Token := ⟨.comment, "/// the green", 0, 0⟩
    let green : Token := ⟨.inlineComment, "///< green", 0, 0⟩
    let layout : Layout :=
      .more ⟨.element, "Red", 0, 0⟩ [.note red rfl] ⟨.char, ",", 0, 0⟩
        (.between before (.inl rfl) <|
          .last ⟨.element, "Green", 0, 0⟩ [.note green rfl] (some ⟨.blockEnd, "\x7d", 0, 0⟩) rfl
            (by simp)) rfl ⟨rfl, rfl⟩
    let r : Reader := ⟨name :: ⟨.blockStart, "\x7b", 0, 0⟩ :: layout.tokens, 0⟩
    ∃ found, read r = .ok found ⟨[], 9⟩ ∧
      found.enumerators.map Enumerator.doc = [⟨"///< red", true⟩, ⟨"/// the green", true⟩] := by
  intro name red before green layout r
  have describes : layout.Describes name r ⟨[], 9⟩ := by
    refine ⟨⟨.blockStart, "\x7b", 0, 0⟩, ⟨layout.tokens, 2⟩, ?_, rfl, rfl, ⟨rfl, rfl⟩, nofun⟩
    exact ⟨⟨⟨.blockStart, "\x7b", 0, 0⟩ :: layout.tokens, 1⟩, ⟨[], rfl, by simp, rfl, rfl⟩, _,
      ⟨[], rfl, by simp, rfl, rfl⟩, rfl⟩
  obtain ⟨found, isRead⟩ := exists_read_iff.mpr ⟨layout, name, describes⟩
  have docs := (read_constantDocs r ⟨[], 9⟩ found isRead).2 layout name describes
  have inline : ∀ (doc : Doc) (text : String), doc.text = text → doc.isInline = true →
      doc = ⟨text, true⟩ := by
    rintro ⟨text, isInline⟩ _ rfl rfl
    rfl
  obtain ⟨first, others, ⟨firstText, firstMark, -⟩, later, constants⟩ :=
    List.forall₂_cons_right_iff.mp docs
  obtain ⟨second, others, ⟨secondText, secondMark, -⟩, none, rfl⟩ :=
    List.forall₂_cons_right_iff.mp later
  obtain rfl := List.forall₂_nil_right_iff.mp none
  refine ⟨found, isRead, ?_⟩
  rw [constants, List.map_cons, List.map_singleton,
    inline _ _ firstText (firstMark.mpr (Or.inr rfl)),
    inline _ _ secondText (secondMark.mpr (Or.inr rfl))]
  rfl

/-- A comment before a constant is taken for an inline comment, because the constant has one of
these too, and is printed behind the constant. -/
theorem read_constantDocs_mixed :
    let text := "Item \x7b\n    /// the enum\n    enum Color \x7b\n        /// first\n" ++
      "        Red,\n        /// the green\n        Green ///< inline green\n    \x7d\n\x7d\n"
    let tokens := (Token.tokenize text).tokens
    (Document.enumerations text).toOption =
        some [{ name := "Color", doc := ⟨"/// the enum", false⟩
                enumerators := [{ name := "Red", doc := ⟨"/// first", false⟩ },
                  { name := "Green", isLast := true, doc := ⟨"/// the green", true⟩ }] }] ∧
      (∀ token ∈ tokens, token.value = "/// the green" → token.kind = .comment) ∧
      (Document.read { info := { name := "A" } } true tokens).document.print.outcome.toOption =
        some ("class A : public QtQuick.Item \x7b\npublic:\n/// the enum\n" ++
          "enum class Color \x7b\n/// first\nRed,\nGreen /// the green\n\x7d;\n\x7d;") := by
  decide +kernel

end Enumeration

end QmlDoc
