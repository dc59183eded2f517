import QmlDoc.Proofs.ReadBody

set_option autoImplicit false

namespace QmlDoc

open Outline

namespace Document

theorem Import.words_solid (entry : Import) : ∀ word ∈ entry.words, Text.Solid word.toList := by
  intro word member
  have constants : Text.Solid "import".toList ∧ Text.Solid "as".toList := by
    constructor <;> decide
  simp only [Import.words, List.mem_append, List.mem_cons, List.not_mem_nil, or_false,
    Option.mem_toList, Option.map_eq_some_iff] at member
  rcases member with ((rfl | rfl) | ⟨version, -, rfl⟩) | member
  · exact constants.1
  · exact entry.module.solid
  · exact version.solid
  · cases short : entry.short with
    | none => simp [short] at member
    | some given =>
        simp only [short, Option.map_some, Option.getD_some, List.mem_cons, List.not_mem_nil,
          or_false] at member
        rcases member with rfl | rfl
        · exact constants.2
        · exact given.solid

theorem addHeader_comment (doc : Document) (note : Comment) :
    addHeader doc [.comment note] = doc.addHeaderComment note.text := by
  simp only [addHeader, addHeaderComment, List.filterMap_cons, List.filterMap_nil,
    HeaderLine.import?, HeaderLine.headerComment?, List.map_nil, List.foldl_nil, List.append_nil]

theorem addHeader_import (doc : Document) (entry : Import) :
    addHeader doc [.importLine entry] =
      { doc with
        imports := doc.imports ++ [entry.module.text]
        aliases := entry.enter doc.aliases } := by
  simp only [addHeader, List.filterMap_cons, List.filterMap_nil, HeaderLine.import?,
    HeaderLine.headerComment?, List.map_cons, List.map_nil, List.foldl_cons, List.foldl_nil,
    List.append_nil]

theorem addHeader_pragma (doc : Document) (name : Word) (further : List Word) :
    addHeader doc [.pragmaLine name further] =
      if name.text.toList.map Char.toLower = "singleton".toList then
        doc.addHeaderComment singletonComment
      else doc := by
  split
  · rename_i single
    simp only [addHeader, addHeaderComment, List.filterMap_cons, List.filterMap_nil,
      HeaderLine.import?, HeaderLine.headerComment?, single, if_true, List.map_nil,
      List.foldl_nil, List.append_nil]
  · rename_i other
    simp only [addHeader, List.filterMap_cons, List.filterMap_nil, HeaderLine.import?,
      HeaderLine.headerComment?, other, if_false, List.map_nil, List.foldl_nil, List.append_nil]

theorem addImport_spelled (doc : Document) (entry : Import) :
    doc.addImport (" ".intercalate entry.words) =
      .ok (addHeader doc [.importLine entry]) := by
  have words := Text.words_intercalate entry.words (Import.words_solid entry)
  obtain ⟨module, version, short, moduleIsName, versionIsNumber, unquoted⟩ := entry
  have other : "import" ≠ "as" := by decide
  rw [addImport, words, addHeader_import]
  cases version with
  | none =>
      cases short <;>
        simp [Import.words, unquoted, aliasWord, moduleIsName, Import.enter]
  | some version =>
      have versionIs : version.text ≠ "as" := versionIsNumber version rfl
      cases short <;>
        simp [Import.words, unquoted, aliasWord, moduleIsName, versionIs, Import.enter]

theorem addPragma_spelled (doc : Document) (name : Word) (further : List Word) :
    doc.addPragma (" ".intercalate ("pragma" :: name.text :: further.map Word.text)) =
      .ok (addHeader doc [.pragmaLine name further]) := by
  have noSpace : ' ' ∉ name.text.toList := name.solid.not_mem (by decide)
  obtain ⟨later, pieces⟩ : ∃ later, List.splitOn ' '
      (" ".intercalate ("pragma" :: name.text :: further.map Word.text)).toList =
        "pragma".toList :: name.text.toList :: later := by
    cases further with
    | nil =>
        have line : (" ".intercalate ["pragma", name.text]).toList =
            "pragma".toList ++ ' ' :: name.text.toList := by
          simp [String.intercalate_cons_cons]
        exact ⟨[], by rw [List.map_nil, line, List.splitOn_append_cons_self_of_not_mem (by decide),
          List.splitOn_eq_singleton noSpace]⟩
    | cons next further =>
        have line : (" ".intercalate ("pragma" :: name.text ::
            (next :: further).map Word.text)).toList = "pragma".toList ++ ' ' ::
              (name.text.toList ++ ' ' ::
                (" ".intercalate ((next :: further).map Word.text)).toList) := by
          simp [String.intercalate_cons_cons]
        exact ⟨_, by rw [line, List.splitOn_append_cons_self_of_not_mem (by decide),
          List.splitOn_append_cons_self_of_not_mem noSpace]⟩
  rw [addPragma, pieces]
  simp only [Text.trim_of_solid _ name.solid, addHeader_pragma]
  split <;> rfl

theorem addHeader_append (doc : Document) (first later : List HeaderLine) :
    addHeader (addHeader doc first) later = addHeader doc (first ++ later) := by
  simp [addHeader]

/-- A line of the header adds what it says. -/
theorem takeHeader_line (doc : Document) (token : Token) (line : HeaderLine)
    (shape : token.shape = line.shape) :
    doc.takeHeader token = .ok (addHeader doc [line], true) := by
  have kindIs : token.kind = line.shape.1 := congrArg Prod.fst shape
  have valueIs : token.value = line.shape.2 := congrArg Prod.snd shape
  cases line with
  | comment note =>
      obtain ⟨text, isInline⟩ := note
      rw [addHeader_comment]
      cases isInline <;>
        simp only [takeHeader, kindIs, valueIs, HeaderLine.shape, Comment.shape] <;> rfl
  | importLine entry =>
      simp only [takeHeader, kindIs, valueIs, HeaderLine.shape, addImport_spelled]
      rfl
  | pragmaLine name further =>
      simp only [takeHeader, kindIs, valueIs, HeaderLine.shape, addPragma_spelled]
      rfl

theorem takeHeader_base (doc : Document) {token : Token} (isBase : token.kind = .component) :
    doc.takeHeader token =
      .ok ({ doc with info := { doc.info with baseName := token.value } }, false) := by
  simp only [takeHeader, isBase]

theorem readHeader_spelled (base : Token) (rest : List Token) (baseKind : base.kind = .component)
    (lines : List HeaderLine) : ∀ (doc : Document) (tokens : List Token) (idx : Nat),
    Spells tokens (lines.map HeaderLine.shape) →
    doc.readHeader ⟨tokens ++ base :: rest, idx⟩ =
      ⟨{ addHeader doc lines with
          info := { (addHeader doc lines).info with baseName := base.value } },
        none, ⟨rest, idx + tokens.length + 1⟩⟩ := by
  induction lines with
  | nil =>
      intro doc tokens idx spelled
      obtain rfl := spells_nil.mp spelled
      simp [readHeader, takeFrom, takeHeader_base doc baseKind, addHeader]
  | cons line lines ih =>
      intro doc tokens idx spelled
      obtain ⟨token, tokens, rfl, shape, spelled⟩ := List.map_eq_cons_iff.mp spelled
      have place : idx + (token :: tokens).length + 1 = idx + 1 + tokens.length + 1 := by
        rw [List.length_cons]
        omega
      have later := ih (addHeader doc [line]) tokens (idx + 1) spelled
      rw [addHeader_append] at later
      rw [List.cons_append, readHeader, takeFrom, takeHeader_line doc token line shape, place]
      exact later

theorem readFooter_spelled (notes : List Comment) : ∀ (doc : Document) (tokens : List Token)
    (idx : Nat), Spells tokens (notes.map Comment.shape) →
    doc.readFooter ⟨tokens, idx⟩ =
      ⟨{ doc with footerComments := doc.footerComments ++ notes.map Comment.text }, none,
        ⟨[], idx + tokens.length⟩⟩ := by
  induction notes with
  | nil =>
      intro doc tokens idx spelled
      obtain rfl := spells_nil.mp spelled
      simp [readFooter, takeFrom]
  | cons note notes ih =>
      intro doc tokens idx spelled
      obtain ⟨token, tokens, rfl, isComment, noteIs, spelled⟩ := spells_comment spelled
      have text : token.value = note.text := congrArg Comment.text noteIs
      have later := ih (doc.addFooterComment token.value) tokens (idx + 1) spelled
      rw [readFooter, takeFrom, takeFooter, if_pos isComment]
      refine later.trans ?_
      simp [addFooterComment, text, Nat.add_assoc, Nat.add_comm 1]

end Document

namespace Outline

mutual

theorem Entry.settle_of_isSettled (part : Entry) (settled : part.isSettled = true) :
    part.settle = part := by
  match part with
  | .member declared => rw [Entry.settle]
  | .component name body =>
      rw [Entry.isSettled] at settled
      rw [Entry.settle, settleBody_of_isSettled body settled]
  | .inlineType name baseName body =>
      rw [Entry.isSettled] at settled
      rw [Entry.settle, settleBody_of_isSettled body settled]

theorem settleBody_of_isSettled (items : List Item) (settled : bodyIsSettled items = true) :
    settleBody items = items := by
  match items with
  | [] => rw [settleBody]
  | .comment note :: later =>
      rw [bodyIsSettled, Bool.and_eq_true, Bool.not_eq_true'] at settled
      rw [settleBody, settleBody_of_isSettled later settled.2,
        addComment_of_not_bare note _ settled.1]
  | .entry note part :: later =>
      rw [bodyIsSettled, Bool.and_eq_true] at settled
      rw [settleBody, part.settle_of_isSettled settled.1, settleBody_of_isSettled later settled.2]

end

theorem bodyShapes_addComment (note : Comment) (items : List Item) :
    bodyShapes (addComment note items) = note.shape :: bodyShapes items := by
  unfold addComment
  split <;> simp [bodyShapes, Item.shapes]

mutual

theorem Entry.shapes_settle (part : Entry) : part.settle.shapes = part.shapes := by
  match part with
  | .member declared => rw [Entry.settle]
  | .component name body =>
      rw [Entry.settle, Entry.shapes, Entry.shapes, bodyShapes_settleBody body]
  | .inlineType name baseName body =>
      rw [Entry.settle, Entry.shapes, Entry.shapes, bodyShapes_settleBody body]

theorem bodyShapes_settleBody (items : List Item) :
    bodyShapes (settleBody items) = bodyShapes items := by
  match items with
  | [] => rw [settleBody]
  | .comment note :: later =>
      rw [settleBody, bodyShapes_addComment, bodyShapes_settleBody later]
      simp [bodyShapes, Item.shapes]
  | .entry note part :: later =>
      rw [settleBody, bodyShapes, bodyShapes, Item.shapes, Item.shapes, part.shapes_settle,
        bodyShapes_settleBody later]

end

end Outline

/-- A file is read back from its tokens, wherever these stand. The tokens do not show whether
a comment right before an entry belongs to it; it is taken to do so, and in a file that keeps
to that nothing changes. -/
theorem Document.read_outline (doc : Document) (file : File) (tokens : List Token)
    (spelled : Spells tokens file.shapes) :
    doc.read true tokens = ⟨file.settle.addTo doc, none, ⟨[], tokens.length⟩⟩ ∧
      file.settle.shapes = file.shapes ∧ (file.isSettled = true → file.settle = file) := by
  refine ⟨?_, ?_, ?_⟩
  · obtain ⟨front, back, rfl, inFront, inBack⟩ := spells_append.mp spelled
    obtain ⟨base, back, rfl, baseKind, baseIs, inBack⟩ := spells_cons.mp inBack
    obtain ⟨body, footer, rfl, inBody, inFooter⟩ := spells_append.mp inBack
    have header := readHeader_spelled base (body ++ footer) baseKind file.header doc front 0 inFront
    have inside := Element.readBody_spelled file.body body footer (0 + front.length + 1) inBody
    rw [Document.read, Reader.ofTokens, header]
    simp only [Parsed.andThen, Document.readBody, inside]
    rw [readFooter_spelled file.footer _ footer _ inFooter]
    have place : 0 + front.length + 1 + body.length + footer.length =
        (front ++ base :: (body ++ footer)).length := by
      simp only [List.length_cons, List.length_append]
      omega
    rw [place, baseIs]
    rfl
  · simp only [File.shapes, File.settle, bodyShapes_settleBody]
  · intro settled
    simp only [File.settle, settleBody_of_isSettled file.body settled]

/-- A small file in which every kind of entry occurs. -/
def Outline.sample : File where
  header :=
    [.comment ⟨"// licence", false⟩,
      .importLine ⟨⟨"QtQuick", by decide⟩, some ⟨"2.0", by decide⟩, some ⟨"Q", by decide⟩,
        by decide, by simp, by decide⟩,
      .pragmaLine ⟨"Singleton", by decide⟩ []]
  baseName := "Item"
  body :=
    [.comment ⟨"// alone", false⟩,
      .entry (some ⟨"/// size", false⟩) (.member (.property .asReadonly "int" "size" (some "3"))),
      .entry none (.member (.function "f" [⟨false, "a", .valued [.array]⟩, ⟨true, "b", .bare⟩]
        [(.blockStart, "\x7b"), (.comment, "// inner"), (.blockEnd, "\x7d")] (by decide))),
      .entry (some ⟨"///< sent", true⟩) (.member (.signal "done" none)),
      .entry none (.member (.signal "_hidden" (some [⟨"int", "x"⟩]))),
      .entry none (.member (.enumeration "E"
        [⟨"A", some "1", .after "///< first" true⟩, ⟨"B", none, .before "/// second"⟩] false)),
      .entry (some ⟨"/// inside", false⟩) (.component "Text"
        [.entry none (.member (.attr "id" "label" false)),
          .entry none (.inlineType "Part" "Item" [.comment ⟨"// deep", false⟩])])]
  footer := [⟨"// end", false⟩]

theorem Document.read_outline_sample :
    let tokens : List Token := sample.shapes.map fun shape => ⟨shape.1, shape.2, 7, 1⟩
    Spells tokens sample.shapes ∧ sample.isSettled = true ∧
      Document.read { info := { name := "Sample" } } true tokens =
        { document :=
            { info :=
                { name := "Sample", baseName := "Item"
                  headerComments := ["// licence", Document.singletonComment] }
              imports := ["QtQuick"]
              aliases := [("Q", "QtQuick")]
              elements :=
                [.comment "// alone",
                  .property
                    { name := "size", type := "int", isReadonly := true
                      doc := ⟨"/// size", false⟩ },
                  .function
                    { name := "f"
                      args := [{ name := "a", defaultValue := some "[]" },
                        { name := "b", isSpread := true }] },
                  .signal { name := "done", doc := ⟨"///< sent", true⟩ },
                  .enumeration
                    { name := "E"
                      enumerators :=
                        [{ name := "A", initializer := "1", doc := ⟨"///< first", true⟩ },
                          { name := "B", isLast := true, doc := ⟨"/// second", false⟩ }] },
                  .component { name := "Text", comment := some "/// inside" }
                    [.attr { name := "id", value := "label" },
                      .inlineType { name := "Part", baseName := "Item" } [.comment "// deep"]]]
              footerComments := ["// end"] }
          error := none
          reader := ⟨[], tokens.length⟩ } := by
  intro tokens
  have spelled : Spells tokens sample.shapes := by
    rw [Spells, List.map_map]
    exact List.map_id _
  have settled : sample.isSettled = true := by decide
  obtain ⟨read, -, same⟩ :=
    Document.read_outline { info := { name := "Sample" } } sample tokens spelled
  refine ⟨spelled, settled, ?_⟩
  rw [read, same settled]
  rfl

end QmlDoc
