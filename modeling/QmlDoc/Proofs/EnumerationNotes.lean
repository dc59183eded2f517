import QmlDoc.Proofs.ArrangedNotes
import QmlDoc.Proofs.BodyRounds
import QmlDoc.Proofs.ReadOutline
import QmlDoc.Proofs.ScanEnumeration

set_option autoImplicit false

namespace QmlDoc

open Outline

namespace Document

/-- The rest of a reading from a place in the body on, with `opened` read so far. -/
def readFrom (opened : Document) (nested : Bool) (pending : Option Token) (r : Reader) : Parsed :=
  let body := Element.readMembers nested pending r
  (Parsed.mk { opened with elements := opened.elements ++ body.elements } body.error
    body.reader).andThen readFooter

/-- Reading `front` makes `opened` of the document and ends in its body, between two members and
with the comment `pending`, whatever members stand behind. -/
def ReadsUpTo (doc : Document) (nested : Bool) (front : List Token) (opened : Document)
    (pending : Option Token) : Prop :=
  ∀ behind, Element.EndsDeclaration behind →
    doc.read nested (front ++ behind) = opened.readFrom nested pending ⟨behind, front.length⟩

theorem readFrom_eq {opened : Document} {nested : Bool} {pending next : Option Token}
    {r s : Reader} {found : List Element}
    (members : Element.readMembers nested pending r =
      (Element.readMembers nested next s).after found) :
    opened.readFrom nested pending r =
      { opened with elements := opened.elements ++ found }.readFrom nested next s := by
  simp only [readFrom, members, Element.Body.after, List.append_assoc]

variable {doc opened : Document} {nested : Bool} {front : List Token} {pending : Option Token}

/-- A document does not start in its body. -/
theorem ReadsUpTo.ne_nil (reached : doc.ReadsUpTo nested front opened pending) : front ≠ [] := by
  rintro rfl
  let brace : Token := ⟨.blockEnd, "\x7d", 0, 0⟩
  have same := reached [brace] ⟨[], brace, [], rfl, by simp, rfl, by decide⟩
  have errors := congrArg Parsed.error same
  cases errors

/-- Where the body opens. -/
theorem readsUpTo_open (doc : Document) (nested : Bool) {lines : List HeaderLine}
    {header : List Token} {base start : Token}
    (spelled : Spells header (lines.map HeaderLine.shape))
    (isBase : base.kind = .component) (isStart : start.kind = .blockStart) :
    doc.ReadsUpTo nested (header ++ [base, start])
      { addHeader doc lines with
        info := { (addHeader doc lines).info with baseName := base.value } } none := by
  intro behind _
  have read := readHeader_spelled base (start :: behind) isBase lines doc header 0 spelled
  have order : header ++ [base, start] ++ behind = header ++ base :: start :: behind := by simp
  have place : 0 + header.length + 1 + 1 = (header ++ [base, start]).length := by
    simp
  rw [order, Document.read, Reader.ofTokens, read]
  simp only [Parsed.andThen, readBody, Element.readBody,
    Element.openBlock_cons start behind _ isStart, place]
  rfl

theorem ReadsUpTo.comment (reached : doc.ReadsUpTo nested front opened pending) {token : Token}
    (isComment : token.isComment = true) :
    doc.ReadsUpTo nested (front ++ [token])
      { opened with elements := opened.elements ++ Element.ofPending pending } (some token) := by
  intro behind ends
  rw [List.append_assoc, List.singleton_append, reached _ (ends.cons isComment),
    List.length_append]
  exact readFrom_eq (Element.membersFrom_comment _ nested pending token behind _ isComment)

theorem ReadsUpTo.member (reached : doc.ReadsUpTo nested front opened pending) {declared : Member}
    {tokens : List Token} (spelled : Spells tokens declared.shapes) :
    doc.ReadsUpTo nested (front ++ tokens)
      { opened with
        elements := opened.elements ++ (declared.element? (pending.map Token.comment)).toList }
      none := by
  intro behind ends
  have isEntry : Spells tokens (Entry.member declared).shapes := by rwa [Entry.shapes]
  obtain ⟨m, enough, read⟩ := Element.yields_member nested pending tokens declared spelled
    ((tokens ++ behind).length + 1) behind front.length (by simp; omega) ends
  rw [List.append_assoc, reached _ (Element.endsDeclaration_entry behind isEntry),
    List.length_append]
  rw [List.length_append] at enough
  rw [Element.membersFrom_eq_readMembers (r := ⟨behind, _⟩) (by simp; omega)] at read
  exact readFrom_eq read

end Document

namespace Source

theorem Constant.outline_isTrailing (constant : Constant) : constant.outline.IsTrailing := by
  obtain ⟨indent, name, value, gap, note⟩ := constant
  cases note with
  | none => exact Or.inl rfl
  | some note =>
      refine Or.inr ⟨String.ofList note.text, "//<".toList ++ note.line, rfl, ?_, ?_⟩
      · rw [String.toList_ofList]
        rfl
      · simpa using note.inLine

namespace Enumeration

def element? (site : Enumeration) (constants : List Outline.Constant) (doc : Doc) :
    Option Element :=
  Element.unlessPrivate (String.ofList site.name.chars) <| .enumeration
    { name := String.ofList site.name.chars
      enumerators := Outline.Constant.enumerators constants
      doc }

/-- What an enumeration adds to the body. It takes the pending comment, and its constants keep
theirs. A comment that has gone in front of the keyword documents the enumeration, and so is not
that of its constant; the pending comment then belongs to nothing. -/
def entries (site : Enumeration) (pending : Option Token) : Option String → List Element
  | none => (site.element? site.outlines (Element.docOf pending {})).toList
  | some text =>
      Element.ofPending pending ++
        (site.element? (Outline.Constant.dropFirstNote site.outlines) ⟨text, true⟩).toList

theorem outlines_isTrailing (site : Enumeration) :
    ∀ constant ∈ site.outlines, constant.IsTrailing := by
  intro constant member
  obtain ⟨written, -, rfl⟩ := List.mem_map.mp member
  exact written.outline_isTrailing

theorem readMembers_spelled (site : Enumeration) (nested : Bool) (pending : Option Token)
    {constants : List Outline.Constant} {tokens : List Token}
    (spelled : Spells tokens
      (Member.enumeration (String.ofList site.name.chars) constants true).shapes)
    (later : List Token) (idx : Nat) :
    Element.readMembers nested pending ⟨tokens ++ later, idx⟩ =
      (Element.readMembers nested none ⟨later, idx + tokens.length⟩).after
        (site.element? constants (Element.docOf pending {})).toList := by
  obtain ⟨keyword, rest, isCons, -⟩ := spells_cons.mp spelled
  have size : 0 < tokens.length := by simp [isCons]
  rw [Element.readMembers, Element.membersFrom_enumeration _ _ _ _ _ _ _ _ _ spelled,
    Element.membersFrom_eq_readMembers (by simp; omega), element?, Element.docOf_comment]
  rfl

/-- The arranged tokens of an enumeration give its entries. -/
theorem readMembers_arranged (site : Enumeration) (nested : Bool) (pending : Option Token)
    {lifted : Option String} {moved kept : List Token}
    (inMoved : Spells moved (Outline.Constant.inlineShapes lifted))
    (inKept : Spells kept (Member.enumeration (String.ofList site.name.chars)
      (Token.keptConstants lifted site.outlines) true).shapes) (later : List Token) (idx : Nat) :
    Element.readMembers nested pending ⟨moved ++ (kept ++ later), idx⟩ =
      (Element.readMembers nested none ⟨later, idx + moved.length + kept.length⟩).after
        (site.entries pending lifted) := by
  cases lifted with
  | none =>
      obtain rfl := spells_nil.mp inMoved
      exact site.readMembers_spelled nested pending inKept later idx
  | some text =>
      obtain ⟨note, others, rfl, inline, isText, inOthers⟩ := spells_cons.mp inMoved
      obtain rfl := spells_nil.mp inOthers
      have isComment : note.isComment = true := by rw [Token.isComment, inline]; rfl
      have docIs : Element.docOf (some note) {} = ⟨text, true⟩ := by
        simp [Element.docOf, Doc.ofToken, inline, isText]
      have inside := site.readMembers_spelled nested (some note) inKept later (idx + 1)
      rw [docIs] at inside
      rw [List.singleton_append, Element.readMembers,
        Element.membersFrom_comment _ nested pending note _ idx isComment]
      change (Element.readMembers nested (some note) ⟨kept ++ later, idx + 1⟩).after _ = _
      rw [inside, Element.Body.after_after]
      rfl

end Enumeration

end Source

theorem Token.isComment_of_inlineShapes {lifted : Option String} {moved : List Token}
    (spelled : Spells moved (Constant.inlineShapes lifted)) :
    ∀ token ∈ moved, token.isComment = true := by
  intro token member
  have isShape := spelled.shape_mem token member
  cases lifted with
  | none => cases isShape
  | some text =>
      have inline : token.kind = .inlineComment :=
        congrArg Prod.fst (List.mem_singleton.mp isShape)
      rw [isComment, inline]
      rfl

/-- The tokens of a text from an enumeration on are arranged behind those before it. -/
theorem Token.tokenize_enumeration {text : String} {n : Nat} {lead back : List Char}
    (site : Source.Enumeration)
    (ahead : (Scanner.scanUpTo n (.ofText text)).stop.rest = lead ++ (site.chars ++ back))
    (blank : ∀ c ∈ lead, Text.isBlank c = true) (apart : back.head? ≠ some '\'')
    (succeeds : (arrange (Scanner.scanUpTo n (.ofText text)).tokens).error = none) :
    let before := (Scanner.scanUpTo n (.ofText text)).tokens
    let tokens := (Scanner.ofText text).scan.tokens
    let through := before.length + site.outline.shapes.length
    ∃ own, Spells own site.outline.shapes ∧
      arrange (tokens.take through) = arrangeFrom (arrange before).tokens own ∧
      tokenize text = arrangeFrom (arrange before).tokens (own ++ tokens.drop through) := by
  intro before tokens through
  obtain ⟨own, after, spelled, scanned⟩ := Scanner.scan_enumeration site ahead blank apart
  have parts : tokens = before ++ own ++ after := by rw [List.append_assoc]; exact scanned
  have size : through = (before ++ own).length := by
    rw [List.length_append, spelled.length_eq]
  have upTo : tokens.take through = before ++ own := by rw [parts, size, List.take_left]
  have behind : tokens.drop through = after := by rw [parts, size, List.drop_left]
  refine ⟨own, spelled, ?_, ?_⟩
  · rw [upTo]
    exact arrangeFrom_append before [] succeeds own
  · rw [tokenize_eq, behind]
    change arrange tokens = _
    rw [parts, List.append_assoc]
    exact arrangeFrom_append before [] succeeds (own ++ after)

namespace Document

variable {doc opened : Document} {nested : Bool} {pending : Option Token}

/-- Reading goes on behind an enumeration that has been arranged. -/
theorem ReadsUpTo.enumeration {front after tokens : List Token} (site : Source.Enumeration)
    (reached : doc.ReadsUpTo nested front opened pending)
    (holds : Token.HoldsEnumeration (String.ofList site.name.chars) site.outlines front after
      tokens) :
    ∃ rest, doc.read nested tokens =
      { opened with
        elements := opened.elements ++
          site.entries pending (Token.liftedNote? front site.outlines after) }.readFrom
        nested none rest := by
  obtain ⟨moved, kept, later, inMoved, inKept, rfl⟩ := holds
  have isEntry : Spells kept (Entry.member (.enumeration (String.ofList site.name.chars)
      (Token.keptConstants (Token.liftedNote? front site.outlines after) site.outlines)
      true)).shapes := by
    rwa [Entry.shapes]
  have ends : Element.EndsDeclaration (moved ++ (kept ++ later)) := by
    obtain ⟨comments, next, further, isRest, areComments, isCode⟩ :=
      Element.endsDeclaration_entry later isEntry
    refine ⟨moved ++ comments, next, further, by rw [isRest, List.append_assoc], ?_, isCode⟩
    exact List.forall_mem_append.mpr ⟨Token.isComment_of_inlineShapes inMoved, areComments⟩
  exact ⟨_, (reached _ ends).trans
    (readFrom_eq (site.readMembers_arranged nested pending inMoved inKept later _))⟩

/-- Reading a text up to an enumeration in its body, and on. Its closing brace is not quoted. The
tokens can be arranged exactly if each comment of the enumeration has another comment or the
keyword near enough before it, and the tokens behind it can be arranged too. Then reading makes the
entries of the enumeration: the constants have their own comments, and the enumeration has the one
before it, unless that does not document it and the first comment, keyword or header line behind
its own keyword is an inline comment. -/
theorem read_constantNotes {text : String} {n : Nat} {lead back : List Char}
    (site : Source.Enumeration)
    (ahead : (Scanner.scanUpTo n (.ofText text)).stop.rest = lead ++ (site.chars ++ back))
    (blank : ∀ c ∈ lead, Text.isBlank c = true) (apart : back.head? ≠ some '\'')
    (succeeds : (Token.arrange (Scanner.scanUpTo n (.ofText text)).tokens).error = none)
    (reached : doc.ReadsUpTo nested
      (Token.arrange (Scanner.scanUpTo n (.ofText text)).tokens).tokens opened pending) :
    let before := (Scanner.scanUpTo n (.ofText text)).tokens
    let front := (Token.arrange before).tokens
    let tokens := (Scanner.ofText text).scan.tokens
    let through := before.length + site.outline.shapes.length
    let lifted := Token.liftedNote? front site.outlines (tokens.drop through)
    ((Token.tokenize text).error = none ↔
      Constant.notesNear (!Token.documented front) 2 site.outlines = true ∧
        Token.AllAnchored (Token.arrange (tokens.take through)).tokens (tokens.drop through)) ∧
    ((Token.tokenize text).error = none →
      ∃ rest, doc.read nested (Token.tokenize text).tokens =
        { opened with elements := opened.elements ++ site.entries pending lifted }.readFrom
          nested none rest) := by
  intro before front tokens through lifted
  obtain ⟨own, spelled, upTo, all⟩ : ∃ own, Spells own site.outline.shapes ∧
      Token.arrange (tokens.take through) = Token.arrangeFrom front own ∧
      Token.tokenize text = Token.arrangeFrom front (own ++ tokens.drop through) :=
    Token.tokenize_enumeration site ahead blank apart succeeds
  have inBody : doc.ReadsUpTo nested front opened pending := reached
  obtain ⟨near, far⟩ :=
    Token.arrangeFrom_enumeration site.outlines_isTrailing inBody.ne_nil spelled
  rw [all, upTo]
  cases isNear : Constant.notesNear (!Token.documented front) 2 site.outlines with
  | false =>
      have fails := far isNear (tokens.drop through)
      simp [fails]
  | true =>
      obtain ⟨done, arranged⟩ := near isNear
      have reaches : Token.arrangeFrom front own = ⟨done, none⟩ := by
        have alone := (arranged []).1
        rwa [List.append_nil] at alone
      rw [(arranged (tokens.drop through)).1, reaches]
      refine ⟨?_, fun noError => ?_⟩
      · rcases Token.arrangeFrom_error done (tokens.drop through) with
          ⟨anchored, noError⟩ | ⟨stranded, error⟩
        · simp [anchored, noError]
        · simp [stranded, error]
      · exact inBody.enumeration site ((arranged (tokens.drop through)).2 noError)

/-- A text with a comment before the enumeration. -/
def colors : String :=
  "Item \x7b\n    property int x\n    /// The colors\n    enum Color \x7b\n" ++
    "        Red, ///< red\n        Green = 2, ///< green\n        Blue,\n    \x7d\n\x7d\n"

def colorsSite : Source.Enumeration where
  space := ⟨⟨[' '], by decide⟩, by decide⟩
  spaced := by decide
  name := ⟨"Color".toList, by decide⟩
  gap := ⟨[' '], by decide⟩
  constants :=
    [⟨⟨"\n        ".toList, by decide⟩, ⟨"Red".toList, by decide⟩, none, ⟨[], by decide⟩,
        some ⟨⟨⟨[' '], by decide⟩, by decide⟩, " red".toList, by decide⟩⟩,
      ⟨⟨"        ".toList, by decide⟩, ⟨"Green".toList, by decide⟩,
        some ⟨⟨[' '], by decide⟩, ⟨[' '], by decide⟩, ⟨['2'], by decide⟩⟩, ⟨[], by decide⟩,
        some ⟨⟨⟨[' '], by decide⟩, by decide⟩, " green".toList, by decide⟩⟩,
      ⟨⟨"        ".toList, by decide⟩, ⟨"Blue".toList, by decide⟩, none, ⟨[], by decide⟩, none⟩]
  closing := ⟨"\n    ".toList, by decide⟩

/-- Behind the comment before the enumeration, its constants keep theirs. -/
theorem read_constantNotes_colors :
    (Token.tokenize colors).error = none ∧
      ∃ rest, Document.read { info := { name := "Colors" } } false (Token.tokenize colors).tokens =
        readFrom
          { info := { name := "Colors", baseName := "Item" }
            elements :=
              [.property { name := "x", type := "int" },
                .enumeration
                  { name := "Color"
                    enumerators :=
                      [{ name := "Red", doc := ⟨"///< red", true⟩ },
                        { name := "Green", initializer := "2", doc := ⟨"///< green", true⟩ },
                        { name := "Blue", isLast := true }]
                    doc := ⟨"/// The colors", false⟩ }] }
          false none rest := by
  let declared : Member := .property .plain "int" "x" none
  let base : Token := ⟨.component, "Item", 0, 0⟩
  let start : Token := ⟨.blockStart, "\x7b", 5, 5⟩
  let own : List Token :=
    [⟨.keyword, "property", 11, 4⟩, ⟨.element, "int", 20, 13⟩, ⟨.element, "x", 24, 17⟩]
  let note : Token := ⟨.comment, "/// The colors", 30, 4⟩
  have scanned : (Scanner.scanUpTo 6 (.ofText colors)).tokens =
        [] ++ [base, start] ++ own ++ [note] ∧
      (Scanner.scanUpTo 6 (.ofText colors)).stop.rest =
        "\n    ".toList ++ (colorsSite.chars ++ "\n\x7d\n".toList) := by
    decide +kernel
  have front : (Token.arrange (Scanner.scanUpTo 6 (.ofText colors)).tokens).tokens =
      [] ++ [base, start] ++ own ++ [note] := by
    rw [scanned.1]
    decide
  have succeeds : (Token.arrange (Scanner.scanUpTo 6 (.ofText colors)).tokens).error = none := by
    rw [scanned.1]
    decide
  have noHeader : Spells [] (([] : List HeaderLine).map HeaderLine.shape) := rfl
  have isBase : base.kind = .component := rfl
  have isStart : start.kind = .blockStart := rfl
  have isOwn : Spells own declared.shapes := rfl
  have isNote : note.isComment = true := rfl
  have reached := ((readsUpTo_open { info := { name := "Colors" } } false noHeader isBase
    isStart).member isOwn).comment isNote
  rw [← front] at reached
  have isBlank : "\n    ".toList.all Text.isBlank = true := by decide
  have noError : (Token.tokenize colors).error = none := by decide +kernel
  obtain ⟨rest, read⟩ :=
    (read_constantNotes colorsSite scanned.2 (List.all_eq_true.mp isBlank) (by decide) succeeds
      reached).2 noError
  have isNoted : Token.documented ([] ++ [base, start] ++ own ++ [note]) = true := by decide
  rw [front, Token.liftedNote?, if_pos isNoted] at read
  exact ⟨noError, rest, read⟩

def enumerations (text : String) : Except TokenError (List Enumeration) :=
  match Token.tokenize text with
  | ⟨tokens, none⟩ =>
      .ok ((read { info := { name := "A" } } false tokens).document.elements.filterMap fun
        | .enumeration found => some found
        | _ => none)
  | ⟨_, some error⟩ => .error error

/-- Without a comment before it, an enumeration takes the comment of its first constant, or one
behind all of them. With one, a comment may still be too far off. -/
theorem read_constantNotes_lifted :
    (enumerations ("Item \x7b\n    enum Color \x7b\n        Red, ///< the red\n" ++
        "        Green, ///< the green\n    \x7d\n\x7d\n")).toOption =
      some [{ name := "Color", doc := ⟨"///< the red", true⟩
              enumerators := [{ name := "Red" },
                { name := "Green", isLast := true, doc := ⟨"///< the green", true⟩ }] }] ∧
    (enumerations "Item \x7b\nenum E \x7b\nA,\n\x7d\nx: 1 ///< one\n\x7d\n").toOption =
      some [{ name := "E", doc := ⟨"///< one", true⟩
              enumerators := [{ name := "A", isLast := true }] }] ∧
    (enumerations ("Item \x7b\n/// E\nenum E \x7b\nA,\nB,\nC,\nD,\nF,\nG,\nH,\nI,\n" ++
        "J, ///< last\n\x7d\n\x7d\n")).toOption = none := by
  decide +kernel

end Document

end QmlDoc
