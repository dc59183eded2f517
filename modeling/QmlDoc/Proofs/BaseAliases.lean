import QmlDoc.Proofs.LiteralPattern
import QmlDoc.Proofs.PrintedMembers

set_option autoImplicit false

namespace QmlDoc

/-- The name with the module in place of its qualifier, if the qualifier is an alias. -/
def qualifiedBy (aliases : List (String × String)) (name : String) : String :=
  match aliases.lookup (String.ofList (name.toList.takeWhile (· ≠ '.'))) with
  | some meaning => meaning ++ String.ofList (name.toList.dropWhile (· ≠ '.'))
  | none => name

/-- The text that stands in for an alias: its module, read as a template. -/
def standIn (short meaning : String) : Except Pattern.Error String :=
  (Pattern.parseTemplate (Pattern.literal short.toList) meaning.toList).map fun parts =>
    String.ofList (parts.filled short.toList)

/-- The name with every occurrence of the aliases replaced, of one alias after the other. -/
def substituted : List (String × String) → String → Except Pattern.Error String
  | [], name => .ok name
  | (short, meaning) :: later, name =>
      match standIn short meaning with
      | .error error => .error error
      | .ok text => substituted later
          (String.ofList (Text.replaceWord short.toList text.toList name.toList))

/-- Aliases stand in the name at most as its qualifier. If one does, it stands nowhere behind the
qualifier, and no later one stands in its module or there. -/
def isClear : List (String × String) → List Char → Bool
  | [], _ => true
  | (short, meaning) :: later, name =>
      let behind := name.dropWhile (· ≠ '.')
      if short.toList = name.takeWhile (· ≠ '.') then
        !Text.contains short.toList behind &&
          later.all fun entry => !Text.contains entry.1.toList (meaning.toList ++ behind)
      else !Text.contains short.toList name && isClear later name

theorem standIn_plain {meaning : String} (unescaped : '\\' ∉ meaning.toList) (short : String) :
    standIn short meaning = .ok meaning := by
  rw [standIn, Pattern.parseTemplate_plain _ unescaped, Except.map, Pattern.filled_plain,
    String.ofList_toList]

/-- Aliases that are identifiers are replaced as words. -/
theorem resolveAliases_eq {aliases : List (String × String)}
    (idents : ∀ entry ∈ aliases, Text.isIdentifier entry.1.toList = true) : ∀ name,
    match substituted aliases name with
    | .ok full => resolveAliases aliases name = (full, none)
    | .error error => (resolveAliases aliases name).2 = some error := by
  induction aliases with
  | nil => intro name; rfl
  | cons entry later ih =>
      intro name
      obtain ⟨short, meaning⟩ := entry
      obtain ⟨nonempty, continues⟩ :=
        Text.continuesIdentifier_of_isIdentifier (idents (short, meaning) (by simp))
      have replaced := Pattern.replace_literal nonempty
        (fun c member => Pattern.isLiteral_of_continuesIdentifier (continues c member)) meaning name
      rw [substituted, resolveAliases, replaced, standIn]
      cases Pattern.parseTemplate (Pattern.literal short.toList) meaning.toList with
      | error error => rfl
      | ok parts =>
          simp only [Except.map, String.toList_ofList]
          exact ih (fun entry member => idents entry (by simp [member])) _

/-- Aliases that stand for their modules as they are written. -/
def PlainAliases (aliases : List (String × String)) : Prop :=
  ∀ entry ∈ aliases, entry.1.toList ≠ [] ∧ '\\' ∉ entry.2.toList

theorem PlainAliases.later {entry : String × String} {later : List (String × String)}
    (plain : PlainAliases (entry :: later)) : PlainAliases later :=
  fun each member => plain each (List.mem_cons_of_mem entry member)

theorem PlainAliases.substituted_cons {short meaning : String} {later : List (String × String)}
    (plain : PlainAliases ((short, meaning) :: later)) (name : String) :
    substituted ((short, meaning) :: later) name = substituted later
      (String.ofList (Text.replaceWord short.toList meaning.toList name.toList)) := by
  rw [substituted, standIn_plain (plain (short, meaning) List.mem_cons_self).2]

theorem PlainAliases.substituted_of_absent {aliases : List (String × String)}
    (plain : PlainAliases aliases) {name : String}
    (absent : ∀ entry ∈ aliases, Text.contains entry.1.toList name.toList = false) :
    substituted aliases name = .ok name := by
  induction aliases with
  | nil => rfl
  | cons entry later ih =>
      have nonempty := (plain entry List.mem_cons_self).1
      rw [plain.substituted_cons, Text.replaceWord_of_absent nonempty _
        (absent entry List.mem_cons_self), String.ofList_toList]
      exact ih plain.later fun each member => absent each (List.mem_cons_of_mem entry member)

theorem qualifiedBy_cons (short meaning : String) (later : List (String × String))
    (name : String) : qualifiedBy ((short, meaning) :: later) name =
      if short.toList = name.toList.takeWhile (· ≠ '.') then
        String.ofList (meaning.toList ++ name.toList.dropWhile (· ≠ '.'))
      else qualifiedBy later name := by
  rw [qualifiedBy, List.lookup_cons]
  by_cases isQualifier : short.toList = name.toList.takeWhile (· ≠ '.')
  · rw [if_pos isQualifier, ← isQualifier, String.ofList_toList, beq_self_eq_true]
    dsimp only
    rw [String.ofList_append, String.ofList_toList]
  · have other : (String.ofList (name.toList.takeWhile (· ≠ '.')) == short) = false := by
      rw [beq_eq_false_iff_ne]
      rintro rfl
      exact isQualifier String.toList_ofList
    rw [if_neg isQualifier, other]
    rfl

/-- Replacing an alias that is the qualifier of the name. -/
theorem replaceWord_qualifier {short name : List Char} (nonempty : short ≠ [])
    (isQualifier : short = name.takeWhile (· ≠ '.')) (meaning : List Char) :
    Text.replaceWord short meaning name =
      meaning ++ Text.replaceWord short meaning (name.dropWhile (· ≠ '.')) := by
  have parts : name = short ++ name.dropWhile (· ≠ '.') := by
    rw [isQualifier, List.takeWhile_append_dropWhile]
  conv_lhs => rw [parts]
  exact Text.replaceWord_append meaning nonempty _

theorem PlainAliases.substituted_of_isClear {aliases : List (String × String)}
    (plain : PlainAliases aliases) {name : String} (clear : isClear aliases name.toList = true) :
    substituted aliases name = .ok (qualifiedBy aliases name) := by
  induction aliases with
  | nil => rfl
  | cons entry later ih =>
      obtain ⟨short, meaning⟩ := entry
      have nonempty := (plain (short, meaning) List.mem_cons_self).1
      rw [isClear] at clear
      rw [plain.substituted_cons, qualifiedBy_cons]
      split at clear
      -- Behind the alias that is the qualifier, the later ones have nothing to replace.
      next isQualifier =>
        simp only [Bool.and_eq_true, Bool.not_eq_true', List.all_eq_true] at clear
        rw [if_pos isQualifier, replaceWord_qualifier nonempty isQualifier,
          Text.replaceWord_of_absent nonempty _ clear.1]
        refine plain.later.substituted_of_absent fun each member => ?_
        rw [String.toList_ofList]
        exact clear.2 each member
      next other =>
        rw [Bool.and_eq_true, Bool.not_eq_true'] at clear
        rw [if_neg other, Text.replaceWord_of_absent nonempty _ clear.1, String.ofList_toList]
        exact ih plain.later clear.2

/-- With one alias, the name is resolved by its qualifier exactly if it is clear or the alias is
the name of its module. -/
theorem PlainAliases.substituted_single_iff {short meaning : String}
    (plain : PlainAliases [(short, meaning)]) (name : String) :
    substituted [(short, meaning)] name = .ok (qualifiedBy [(short, meaning)] name) ↔
      meaning = short ∨ isClear [(short, meaning)] name.toList = true := by
  have nonempty := (plain (short, meaning) List.mem_cons_self).1
  have kept (text : List Char) : Text.replaceWord short.toList meaning.toList text = text ↔
      meaning = short ∨ Text.contains short.toList text = false := by
    rw [Text.replaceWord_eq_self_iff nonempty, String.toList_inj]
  rw [plain.substituted_cons, substituted, Except.ok.injEq, qualifiedBy_cons, isClear]
  by_cases isQualifier : short.toList = name.toList.takeWhile (· ≠ '.')
  · rw [if_pos isQualifier, if_pos isQualifier, String.ofList_inj,
      replaceWord_qualifier nonempty isQualifier, List.append_cancel_left_eq, kept]
    simp
  · rw [if_neg isQualifier, if_neg isQualifier]
    have same : String.ofList (Text.replaceWord short.toList meaning.toList name.toList) = name ↔
        Text.replaceWord short.toList meaning.toList name.toList = name.toList := by
      rw [← String.toList_inj, String.toList_ofList]
    change _ = name ↔ _
    rw [same, kept]
    simp [isClear]

theorem PlainAliases.of_idents {aliases : List (String × String)}
    (idents : ∀ entry ∈ aliases, Text.isIdentifier entry.1.toList = true)
    (unescaped : ∀ entry ∈ aliases, '\\' ∉ entry.2.toList) : PlainAliases aliases :=
  fun entry member => ⟨(Text.continuesIdentifier_of_isIdentifier (idents entry member)).1,
    unescaped entry member⟩

theorem qualifiedBase_ne {name : String} (named : name ≠ "") : qualifiedBase name ≠ "" := by
  rw [qualifiedBase]
  split
  · decide
  · split
    · decide
    · exact named

theorem TypeInfo.opening_qualify (info : TypeInfo) : info.qualify.opening = info.opening :=
  rfl

theorem TypeInfo.classLine_qualify (info : TypeInfo) (base : Option String) :
    info.qualify.classLine base = info.classLine base :=
  rfl

theorem TypeInfo.closing_qualify (info : TypeInfo) : info.qualify.closing = info.closing :=
  rfl

/-- A type that is declared inside of another one names its base type as it is written, however
often it is printed. -/
theorem Element.print_inlineType_base (n : Nat) : ∀ (info : TypeInfo) (elements : List Element),
    info.baseName ≠ "" → ∃ body, ((printed print)^[n] (.inlineType info elements)).print.text =
      "\n".intercalate (info.opening ++ [info.classLine (some (qualifiedBase info.baseName))] ++
        body ++ ["\x7d;"] ++ info.closing) := by
  induction n with
  | zero =>
      intro info elements named
      have base : info.qualify.base? = some (qualifiedBase info.baseName) :=
        if_neg (qualifiedBase_ne named)
      rw [Function.iterate_zero, id, print_inlineType, base]
      dsimp only
      rw [info.opening_qualify, info.classLine_qualify, info.closing_qualify]
      exact ⟨_, rfl⟩
  | succ n ih =>
      intro info elements named
      have same : qualifiedBase info.qualify.baseName = qualifiedBase info.baseName :=
        qualifiedBase_qualifiedBase info.baseName
      obtain ⟨body, text⟩ := ih info.qualify _ (qualifiedBase_ne named)
      rw [Function.iterate_succ, Function.comp, printed, print_inlineType, text, same,
        info.opening_qualify, info.classLine_qualify, info.closing_qualify]
      exact ⟨body, rfl⟩

namespace Document

def textWith (doc : Document) (base : String) : String :=
  let body := Element.placeElements Element.print doc.info.separateBlocks {} doc.elements
  "\n".intercalate (doc.usingLines ++ doc.info.opening ++ [doc.info.classLine (some base)] ++
    body.pieces.map Element.Piece.text ++ ["\x7d;"] ++ doc.footerComments ++ doc.info.closing)

/-- Which base types the classes name, if the aliases are identifiers. That of a file has all
occurrences of the aliases replaced, that of an inline type none. The qualifier alone is resolved
if the aliases are clear in the name; with one alias, only then or if it is its own module. -/
theorem print_base (doc : Document)
    (idents : ∀ entry ∈ doc.aliases, Text.isIdentifier entry.1.toList = true)
    (named : doc.info.baseName ≠ "") :
    doc.print.outcome =
        (substituted doc.aliases doc.info.baseName).map (doc.textWith ∘ qualifiedBase) ∧
      (∀ (info : TypeInfo) (elements : List Element) (n : Nat), info.baseName ≠ "" → ∃ body,
        ((Element.printed Element.print)^[n] (.inlineType info elements)).print.text =
          "\n".intercalate (info.opening ++ [info.classLine (some (qualifiedBase info.baseName))] ++
            body ++ ["\x7d;"] ++ info.closing)) ∧
      ((∀ entry ∈ doc.aliases, '\\' ∉ entry.2.toList) →
        (isClear doc.aliases doc.info.baseName.toList = true →
          substituted doc.aliases doc.info.baseName =
            .ok (qualifiedBy doc.aliases doc.info.baseName)) ∧
        ∀ short meaning, doc.aliases = [(short, meaning)] →
          (substituted doc.aliases doc.info.baseName =
              .ok (qualifiedBy doc.aliases doc.info.baseName) ↔
            meaning = short ∨ isClear doc.aliases doc.info.baseName.toList = true)) := by
  refine ⟨?_, fun info elements n => Element.print_inlineType_base n info elements,
    fun unescaped => ?_⟩
  · have resolved := resolveAliases_eq idents doc.info.baseName
    rw [print, resolveBase, if_neg named]
    cases substitution : substituted doc.aliases doc.info.baseName with
    | ok full =>
        rw [substitution] at resolved
        have base : doc.info.base? = some doc.info.baseName := if_neg named
        rw [resolved, base]
        rfl
    | error error =>
        rw [substitution] at resolved
        obtain ⟨name, failed⟩ : ∃ name,
            resolveAliases doc.aliases doc.info.baseName = (name, some error) :=
          ⟨_, Prod.ext rfl resolved⟩
        rw [failed]
        rfl
  · have plain := PlainAliases.of_idents idents unescaped
    refine ⟨plain.substituted_of_isClear, fun short meaning single => ?_⟩
    rw [single] at plain ⊢
    exact plain.substituted_single_iff doc.info.baseName

/-- An alias that is part of the module that it stands for, and one that is not in the name. -/
theorem print_base_button :
    let doc : Document :=
      { info := { name := "A", baseName := "Controls.Button" }
        aliases := [("T", "QtQuick.Templates"), ("Controls", "QtQuick.Controls")] }
    isClear doc.aliases doc.info.baseName.toList = true ∧
      substituted doc.aliases doc.info.baseName = .ok "QtQuick.Controls.Button" ∧
      doc.print.outcome = .ok "class A : public QtQuick.Controls.Button \x7b\n\x7d;" := by
  intro doc
  have idents : ∀ entry ∈ doc.aliases, Text.isIdentifier entry.1.toList = true := by decide
  have clear : isClear doc.aliases doc.info.baseName.toList = true := by decide +kernel
  obtain ⟨outcome, -, resolved⟩ := doc.print_base idents (by decide)
  have qualified : qualifiedBy doc.aliases doc.info.baseName = "QtQuick.Controls.Button" := by
    decide +kernel
  have full := (resolved (by decide)).1 clear
  rw [qualified] at full
  have text : doc.textWith (qualifiedBase "QtQuick.Controls.Button") =
      "class A : public QtQuick.Controls.Button \x7b\n\x7d;" := by decide +kernel
  refine ⟨clear, full, ?_⟩
  rw [outcome, full, Except.map, Function.comp, text]

/-- An alias that is the start of another name, a module that has an alias in it, and an alias as
the qualifier of the base type of an inline type. -/
theorem print_base_differs :
    let document (text : String) : Document :=
      (({ info := { name := "A" } } : Document).read true (Token.tokenize text).tokens).document
    let start := document "import QtQuick.Controls 2.0 as Con\n\nContainer \x7b\n\x7d\n"
    let chain := document "import B.C 1.0 as A\nimport X 1.0 as B\n\nA.D \x7b\n\x7d\n"
    let inner := document
      ("import QtQuick.Controls 2.0 as Con\n\nItem \x7b\n    component Frame: Con.Pane \x7b\n" ++
        "    \x7d\n\x7d\n")
    (qualifiedBy start.aliases start.info.baseName = "Container" ∧
        start.print.outcome.toOption = some ("using namespace QtQuick::Controls;\n" ++
          "class A : public QtQuick.Controlstainer \x7b\n\x7d;")) ∧
      (qualifiedBy chain.aliases chain.info.baseName = "B.C.D" ∧
        chain.print.outcome.toOption = some ("using namespace B::C;\nusing namespace X;\n" ++
          "class A : public X.C.D \x7b\n\x7d;")) ∧
      qualifiedBy inner.aliases "Con.Pane" = "QtQuick.Controls.Pane" ∧
        inner.print.outcome.toOption = some ("using namespace QtQuick::Controls;\n" ++
          "class A : public QtQuick.Item \x7b\npublic:\nclass Frame : public Con.Pane \x7b\n" ++
          "\x7d;\n\x7d;") := by
  decide +kernel

end Document

end QmlDoc
