import QmlDoc.Proofs.EnumerationNotes
import QmlDoc.Proofs.TokenPlaces

set_option autoImplicit false

namespace QmlDoc

namespace Lexeme

/-- A word of letters, digits and underscores. -/
structure IsIdentifier (word : List Char) : Prop where
  some : word ≠ []
  inside : ∀ c ∈ word, Text.isWord c = true

theorem IsIdentifier.cons {word : List Char} (isIdentifier : IsIdentifier word) :
    ∃ c rest, word = c :: rest ∧ Text.isWord c = true := by
  obtain ⟨c, rest, rfl⟩ := List.exists_cons_of_ne_nil isIdentifier.some
  exact ⟨c, rest, rfl, isIdentifier.inside c (by simp)⟩

theorem IsIdentifier.isName {word : List Char} (isIdentifier : IsIdentifier word)
    (plain : word ∉ specialWords) : IsName word where
  first := isIdentifier.cons
  inside := fun c member => by simp [isElementChar, isIdentifier.inside c member]
  plain

theorem IsIdentifier.backslash_not_mem {word : List Char} (isIdentifier : IsIdentifier word) :
    '\\' ∉ word := by
  intro member
  have isWord := isIdentifier.inside _ member
  cases isWord

/-- What is found of a name that stands before the closing brace, if `keywords` are taken for such
and not for names. -/
def nameLexeme (keywords : List String) (name : String) : Lexeme :=
  if name = "import" then ⟨.importLine, 0, "import\n\x7d".toList⟩
  else ⟨if name ∈ keywords then .keyword else .element, 0, name.toList⟩

theorem find?_property_name {name : String} (isIdentifier : IsIdentifier name.toList) :
    find? false (some ' ') (name.toList ++ "\n\x7d".toList) =
      some (nameLexeme ["property", "signal", "enum", "function"] name) := by
  by_cases special : name.toList ∈ specialWords
  · obtain ⟨word, member, same⟩ := List.mem_map.mp special
    obtain rfl := String.toList_inj.mp same
    clear same special isIdentifier
    revert word
    decide +kernel
  · have other (word : String) (isSpecial : word.toList ∈ specialWords) : name ≠ word := by
      rintro rfl
      exact special isSpecial
    have noKeyword : name ∉ ["property", "signal", "enum", "function"] := by
      simp [other "property" (by decide), other "signal" (by decide), other "enum" (by decide),
        other "function" (by decide)]
    have ends : EndsName "\n\x7d".toList := by
      intro c first
      obtain rfl := Option.some.inj first
      decide
    rw [nameLexeme, if_neg (other _ (by decide)), if_neg noKeyword]
    exact rules_name (isIdentifier.isName special) ends (some ' ')

theorem find?_base (rest : List Char) (previous : Option Char) :
    find? true previous ("Item".toList ++ ' ' :: '\x7b' :: rest) =
      some ⟨.component, 0, "Item".toList⟩ := by
  rfl

end Lexeme

namespace Source

def propertyText (type name : String) : String :=
  "Item \x7b\nproperty " ++ type ++ " " ++ name ++ "\n\x7d"

/-- The tokens behind the type of the property, if `keywords` are taken for such. -/
def nameShapes (keywords : List String) (name : String) : List Shape :=
  if name = "import" then [(.importLine, "import\n\x7d")]
  else [(if name ∈ keywords then .keyword else .element, name), (.blockEnd, "\x7d")]

/-- What a name is taken for that is not understood behind the type of a property. -/
def mistakenShape (name : String) : Shape :=
  if name = "import" then (.importLine, "import\n\x7d") else (.keyword, name)

theorem nameShapes_mistaken {name : String}
    (mistaken : name ∈ ["import", "signal", "enum", "function"]) :
    ∃ later, nameShapes ["signal", "enum", "function"] name = mistakenShape name :: later := by
  by_cases isImport : name = "import"
  · exact ⟨[], by simp [nameShapes, mistakenShape, isImport]⟩
  · have isKeyword : name ∈ ["signal", "enum", "function"] := by simpa [isImport] using mistaken
    exact ⟨[(.blockEnd, "\x7d")], by
      rw [nameShapes, mistakenShape, if_neg isImport, if_neg isImport, if_pos isKeyword]⟩

theorem mistakenShape_kind (name : String) :
    (mistakenShape name).1 = .importLine ∨ (mistakenShape name).1 = .keyword := by
  rw [mistakenShape]
  split
  · exact Or.inl rfl
  · exact Or.inr rfl

def propertyShapes (keywords : List String) (type name : String) : List Shape :=
  [(.component, "Item"), (.blockStart, "\x7b"), (.keyword, "property"), (.element, type)] ++
    nameShapes keywords name

end Source

namespace Scanner

open Source

theorem joinContinued_of_absent {text : List Char} (absent : '\\' ∉ text) :
    joinContinued text = text := by
  fun_induction joinContinued text with
  | case1 rest ih => simp at absent
  | case2 c rest other ih => rw [ih fun member => absent (List.mem_cons_of_mem c member)]
  | case3 => rfl

theorem scan_of_rest_nil {s : Scanner} {text : List Char} (stands : s.StandsIn text)
    (atEnd : s.rest = []) : s.scan.tokens = [] := by
  have here : s.skipBlanks.atEnd = true := by
    rw [stands.skipBlanks.atEnd, skipBlanks_rest, atEnd]
    rfl
  rw [scan, scanUpTo, if_pos here]

theorem blank_space : ∀ c ∈ [' '], Text.isBlank c = true :=
  List.all_eq_true.mp (by decide)

theorem blank_newline : ∀ c ∈ ['\n'], Text.isBlank c = true :=
  List.all_eq_true.mp (by decide)

/-- What stands behind the type of the property. -/
theorem advances_property_name {s : Scanner} {name : String}
    (isIdentifier : Lexeme.IsIdentifier name.toList)
    (ahead : s.rest = ' ' :: (name.toList ++ "\n\x7d".toList)) (started : s.idx ≠ 0) :
    ∃ tokens t, Advances s tokens t ∧
      Spells tokens (nameShapes ["property", "signal", "enum", "function"] name) ∧
      t.rest = [] := by
  have inLine : (decide (s.idx = 0) || [' '].contains '\n') = false := by simp [started]
  have found := Lexeme.find?_property_name isIdentifier
  rw [← inLine] at found
  by_cases isImport : name = "import"
  · subst isImport
    have split : s.rest = [' '] ++ ("import\n\x7d".toList ++ []) := ahead
    obtain ⟨token, t, advances, shape, restIs, -, -⟩ := advances_piece split blank_space
      ⟨'i', "mport\n\x7d".toList, rfl, by decide⟩ found
    exact ⟨[token], t, advances, by rw [Spells, List.map_singleton, shape]; rfl, restIs⟩
  · rw [Lexeme.nameLexeme, if_neg isImport] at found
    obtain ⟨c, more, isCons, isWord⟩ := isIdentifier.cons
    have split : s.rest = [' '] ++ (name.toList ++ "\n\x7d".toList) := ahead
    obtain ⟨token, t, advances, shape, restIs, -, -⟩ := advances_piece split blank_space
      ⟨c, more, isCons, isBlank_of_isWord isWord⟩ found
    have atBrace : t.rest = ['\n'] ++ '\x7d' :: [] := restIs
    obtain ⟨brace, u, toBrace, isBrace, atEnd, -⟩ :=
      advances_brace atBrace blank_newline (by decide) (by simp) (by simp)
    refine ⟨[token] ++ [brace], u, advances.append toBrace, ?_, atEnd⟩
    rw [nameShapes, if_neg isImport, Spells, List.map_append, List.map_singleton,
      List.map_singleton, shape, isBrace, String.ofList_toList]
    rfl

/-- The type of the property, up to the blank behind it. -/
theorem advances_property_type {s : Scanner} {type rest : List Char}
    (isType : Lexeme.IsIdentifier type) (plain : type ∉ Lexeme.specialWords)
    (ahead : s.rest = [' '] ++ (type ++ ' ' :: rest)) (started : s.idx ≠ 0) :
    ∃ token t, Advances s [token] t ∧ token.shape = (.element, String.ofList type) ∧
      t.rest = ' ' :: rest ∧ t.idx ≠ 0 := by
  obtain ⟨c, more, isCons, isWord⟩ := isType.cons
  have ends : Lexeme.EndsName (' ' :: rest) := by
    intro d first
    obtain rfl := Option.some.inj first
    decide
  have inLine : (decide (s.idx = 0) || [' '].contains '\n') = false := by simp [started]
  have found := Lexeme.rules_name (isType.isName plain) ends ([' '].reverse ++ s.before).head?
  obtain ⟨token, t, advances, shape, restIs, -, goesOn⟩ := advances_piece ahead blank_space
    ⟨c, more, isCons, isBlank_of_isWord isWord⟩ (by rw [inLine]; exact found)
  exact ⟨token, t, advances, shape, restIs, goesOn⟩

/-- The keyword of the property, at the start of a line. -/
theorem advances_property_keyword {s : Scanner} {rest : List Char} {c : Char}
    (isWord : Text.isWord c = true)
    (ahead : s.rest = ['\n'] ++ ("property".toList ++ ([' '] ++ c :: rest))) :
    ∃ token t, Advances s [token] t ∧ token.shape = (.keyword, "property") ∧
      t.rest = [' '] ++ c :: rest ∧ t.idx ≠ 0 := by
  obtain ⟨token, t, advances, shape, restIs, -, started⟩ := advances_piece ahead blank_newline
    ⟨'p', "roperty".toList, rfl, by decide⟩
    (Lexeme.find?_keyword (Or.inr rfl) (by simp) blank_space isWord _ _)
  exact ⟨token, t, advances, shape, restIs, started⟩

/-- The tokens of the text, as they are scanned. -/
theorem scan_property {type name : String} (isType : Lexeme.IsIdentifier type.toList)
    (plain : type.toList ∉ Lexeme.specialWords) (isName : Lexeme.IsIdentifier name.toList) :
    Spells (ofText (propertyText type name)).scan.tokens
      (propertyShapes ["property", "signal", "enum", "function"] type name) := by
  obtain ⟨c, more, isCons, isWord⟩ := isType.cons
  have chars : (propertyText type name).toList = "Item".toList ++ ([' '] ++ '\x7b' ::
      (['\n'] ++ ("property".toList ++ ([' '] ++ (type.toList ++
        ' ' :: (name.toList ++ "\n\x7d".toList)))))) := by
    have parts (first second third : String) : (first ++ type ++ second ++ name ++ third).toList =
        first.toList ++ (type.toList ++ (second.toList ++ (name.toList ++ third.toList))) := by simp
    exact parts "Item \x7b\nproperty " " " "\n\x7d"
  have absent : '\\' ∉ (propertyText type name).toList := by
    rw [chars]
    simp [isType.backslash_not_mem, isName.backslash_not_mem]
  have rest₀ : (ofText (propertyText type name)).rest = [] ++ (propertyText type name).toList :=
    joinContinued_of_absent absent
  rw [chars, isCons] at rest₀
  obtain ⟨item, s₁, toItem, isItem, rest₁, -, -⟩ := advances_piece rest₀ nofun
    ⟨'I', "tem".toList, rfl, by decide⟩ (Lexeme.find?_base _ _)
  obtain ⟨start, s₂, toStart, isStart, rest₂, -⟩ :=
    advances_brace rest₁ blank_space (by decide) (by simp) (by simp)
  obtain ⟨keyword, s₃, toKeyword, isKeyword, rest₃, started₃⟩ :=
    advances_property_keyword isWord rest₂
  have atType : s₃.rest = [' '] ++ (type.toList ++ ' ' :: (name.toList ++ "\n\x7d".toList)) := by
    rw [rest₃, isCons]
    rfl
  obtain ⟨word, s₄, toWord, isWord, rest₄, started₄⟩ :=
    advances_property_type isType plain atType started₃
  obtain ⟨last, s₅, toLast, isLast, rest₅⟩ := advances_property_name isName rest₄ started₄
  have stands := standsIn_ofText (propertyText type name)
  have advances := toItem.append (toStart.append (toKeyword.append (toWord.append toLast)))
  rw [scan_of_advances advances stands, scan_of_rest_nil (advances.standsIn stands) rest₅,
    List.append_nil, propertyShapes]
  rw [Spells] at isLast ⊢
  simp only [List.map_append, List.map_singleton, isItem, isStart, isKeyword, isWord, isLast,
    String.ofList_toList]
  rfl

end Scanner

namespace Token

open Source

/-- Behind the type of a property, only the word `property` is made a name. -/
theorem shape_settled_name {done : List Token} (awaited : awaitsPropertyName done = true)
    {token : Token} {name : String}
    (isName : token.shape =
      (if name ∈ ["property", "signal", "enum", "function"] then .keyword else .element, name)) :
    token.kind ≠ .inlineComment ∧ (settled done token).shape =
      (if name ∈ ["signal", "enum", "function"] then .keyword else .element, name) := by
  obtain ⟨kindIs, valueIs⟩ := Prod.mk.inj isName
  by_cases isProperty : name = "property"
  · subst isProperty
    simp [settled, shape, kindIs, valueIs, awaited, isComment, Kind.isComment]
  · by_cases isKeyword : name ∈ ["signal", "enum", "function"]
    · rw [if_pos (List.mem_cons_of_mem _ isKeyword)] at kindIs
      simp [settled, shape, kindIs, valueIs, isProperty, isKeyword, isComment, Kind.isComment]
    · rw [if_neg (by simpa [isProperty] using isKeyword)] at kindIs
      simp [settled, shape, kindIs, valueIs, isKeyword, isComment, Kind.isComment]

/-- A name for a property may be any word but these, as they keep another meaning. -/
theorem arrangeFrom_name {done : List Token} (awaited : awaitsPropertyName done = true)
    {tokens : List Token} {name : String}
    (spelled : Spells tokens (nameShapes ["property", "signal", "enum", "function"] name)) :
    ∃ last, arrangeFrom done tokens = ⟨done ++ last, none⟩ ∧
      Spells last (nameShapes ["signal", "enum", "function"] name) := by
  by_cases isImport : name = "import"
  · rw [nameShapes, if_pos isImport] at spelled ⊢
    obtain ⟨line, later, rfl, kindIs, valueIs, spelled⟩ := spells_cons.mp spelled
    obtain rfl := spells_nil.mp spelled
    have kept : settled done line = line := by
      simp [settled, kindIs, isComment, Kind.isComment]
    refine ⟨[line], ?_, spells_cons.mpr ⟨line, [], rfl, kindIs, valueIs, rfl⟩⟩
    rw [arrangeFrom_other (by simp [kindIs]), kept]
    rfl
  · rw [nameShapes, if_neg isImport] at spelled ⊢
    obtain ⟨word, later, rfl, kindIs, valueIs, spelled⟩ := spells_cons.mp spelled
    obtain ⟨brace, later, rfl, braceKind, braceIs, spelled⟩ := spells_cons.mp spelled
    obtain rfl := spells_nil.mp spelled
    obtain ⟨notInline, shapeIs⟩ := shape_settled_name awaited (Prod.ext kindIs valueIs)
    have free : brace.kind.endsSearch = false := by rw [braceKind]; rfl
    refine ⟨[settled done word, brace], ?_, ?_⟩
    · rw [arrangeFrom_other notInline, arrangeFrom_other (by simp [braceKind]),
        settled_free free]
      simp [arrangeFrom]
    · rw [Spells, List.map_cons, List.map_singleton, shapeIs, shape, braceKind, braceIs]

theorem tokenize_property {type name : String} (isType : Lexeme.IsIdentifier type.toList)
    (plain : type.toList ∉ Lexeme.specialWords) (isName : Lexeme.IsIdentifier name.toList) :
    (tokenize (propertyText type name)).error = none ∧
      Spells (tokenize (propertyText type name)).tokens
        (propertyShapes ["signal", "enum", "function"] type name) := by
  have spelled := Scanner.scan_property isType plain isName
  rw [tokenize_eq]
  rw [propertyShapes] at spelled ⊢
  obtain ⟨front, back, order, inFront, inBack⟩ := spells_append.mp spelled
  obtain ⟨item, front, rfl, itemKind, itemIs, inFront⟩ := spells_cons.mp inFront
  obtain ⟨start, front, rfl, startKind, startIs, inFront⟩ := spells_cons.mp inFront
  obtain ⟨keyword, front, rfl, keywordKind, keywordIs, inFront⟩ := spells_cons.mp inFront
  obtain ⟨word, front, rfl, wordKind, wordIs, inFront⟩ := spells_cons.mp inFront
  obtain rfl := spells_nil.mp inFront
  have awaited : awaitsPropertyName [item, start, keyword, word] = true := by
    have ends : Text.endsWith "property" "property" = true := by decide
    simp [awaitsPropertyName, wordKind, keywordKind, keywordIs, ends]
  have kept : settled [item, start] keyword = keyword := by
    simp [settled, awaitsPropertyName, startKind, keywordKind, isComment, Kind.isComment]
  obtain ⟨last, arranged, isLast⟩ := arrangeFrom_name awaited inBack
  have opening : ∀ token ∈ [item, start], token.kind.endsSearch = false := by
    simp [itemKind, startKind, Kind.endsSearch]
  have typing : ∀ token ∈ [word], token.kind.endsSearch = false := by
    simp [wordKind, Kind.endsSearch]
  have all : arrange ([item, start] ++ keyword :: ([word] ++ back)) =
      ⟨[item, start, keyword, word] ++ last, none⟩ := by
    rw [arrange, arrangeFrom_free _ opening, arrangeFrom_other (by simp [keywordKind]),
      arrangeFrom_free _ typing, List.nil_append, kept]
    exact arranged
  have tokens : (Scanner.ofText (propertyText type name)).scan.tokens =
      [item, start] ++ keyword :: ([word] ++ back) := order
  rw [tokens, all]
  exact ⟨rfl, spells_append.mpr ⟨_, last, rfl, by
    simp [Spells, shape, itemKind, itemIs, startKind, startIs, keywordKind, keywordIs, wordKind,
      wordIs], isLast⟩⟩

end Token

namespace Document

open Outline Source

variable (doc : Document) (nested : Bool)

/-- The document with one property more and the base type `Item`. -/
def withProperty (type name : String) : Document :=
  { doc with
    info := { doc.info with baseName := "Item" }
    elements := doc.elements ++ [.property { name, type }] }

/-- Tokens whose name is an element give the property. -/
theorem read_property {tokens : List Token} {type name : String}
    (isPublic : Text.startsWith name "_" = false)
    (spelled : Spells tokens
      [(.component, "Item"), (.blockStart, "\x7b"), (.keyword, "property"), (.element, type),
        (.element, name), (.blockEnd, "\x7d")]) :
    (doc.read nested tokens).error = none ∧
      (doc.read nested tokens).document = doc.withProperty type name := by
  obtain ⟨base, tokens, rfl, baseKind, baseIs, spelled⟩ := spells_cons.mp spelled
  obtain ⟨start, tokens, rfl, startKind, startIs, spelled⟩ := spells_cons.mp spelled
  have split : Spells tokens
      ((Member.property .plain type name none).shapes ++ [(.blockEnd, "\x7d")]) := spelled
  obtain ⟨member, tokens, rfl, isMember, spelled⟩ := spells_append.mp split
  obtain ⟨brace, tokens, rfl, braceKind, braceIs, spelled⟩ := spells_cons.mp spelled
  obtain rfl := spells_nil.mp spelled
  have ends : Element.EndsDeclaration [brace] :=
    ⟨[], brace, [], rfl, by simp, by rw [Token.isComment, braceKind]; rfl, by simp [braceKind]⟩
  have noLines : Spells [] (([] : List HeaderLine).map HeaderLine.shape) := rfl
  have read := ((readsUpTo_open doc nested noLines baseKind startKind).member isMember) [brace] ends
  have closed (idx : Nat) : Element.readMembers nested none ⟨[brace], idx⟩ =
      .closed none ⟨[], idx + 1⟩ := Element.membersFrom_end _ _ _ _ _ _ braceKind
  have order : base :: start :: (member ++ [brace]) = [] ++ [base, start] ++ member ++ [brace] := by
    simp
  rw [order, read, readFrom, closed]
  refine ⟨rfl, ?_⟩
  simp [Parsed.andThen, readFooter, takeFrom, Element.Body.closed, Element.ofPending,
    withProperty, baseIs, Member.element?, Element.unlessPrivate, isPublic, addHeader]

/-- A property fails at a name that is of another kind. -/
theorem readMember_refused {keyword word last : Token} {later : List Token}
    (keywordIs : keyword.value = "property") (wordKind : word.kind = .element)
    (isCode : last.isComment = false) (other : last.kind ≠ .element) (idx : Nat) :
    Element.readMember keyword none ⟨word :: last :: later, idx⟩ =
      .error (.wrongKind (.one .element) last) ⟨later, idx + 2⟩ := by
  have isProperty : Text.endsWith keyword.value "property" = true := by rw [keywordIs]; decide
  have refused : Reading.expect (.one .element) ⟨last :: later, idx + 1⟩ =
      .error (.wrongKind (.one .element) last) ⟨later, idx + 2⟩ := by
    rw [Reading.expect, Reading.bind_of_ok (Reading.code_cons last later (idx + 1) isCode),
      if_neg (by simpa [Expected.accepts] using other)]
    rfl
  have typed := Reading.expect_kind .element word (last :: later) idx wordKind rfl
  have property : Property.read keyword.value ⟨word :: last :: later, idx⟩ =
      .error (.wrongKind (.one .element) last) ⟨later, idx + 2⟩ := by
    rw [Property.read, Reading.bind_of_ok typed, Reading.bind_of_error refused]
  rw [Element.readMember, if_pos isProperty, Reading.bind_of_error property]

theorem not_element_of_mistaken {token : Token} {name : String}
    (isMistaken : token.shape = mistakenShape name) :
    token.isComment = false ∧ token.kind ≠ .element := by
  have kindIs : token.kind = (mistakenShape name).1 := congrArg Prod.fst isMistaken
  rw [Token.isComment, kindIs]
  rcases mistakenShape_kind name with isLine | isKeyword
  · simp [isLine, Token.Kind.isComment]
  · simp [isKeyword, Token.Kind.isComment]

/-- Tokens whose name is taken for something else make reading fail there. -/
theorem read_mistaken {tokens : List Token} {type name : String}
    (mistaken : name ∈ ["import", "signal", "enum", "function"])
    (spelled : Spells tokens (propertyShapes ["signal", "enum", "function"] type name)) :
    ∃ token ∈ tokens, token.shape = mistakenShape name ∧
      (doc.read nested tokens).error = some (.wrongKind (.one .element) token) := by
  obtain ⟨front, back, rfl, inFront, inBack⟩ := spells_append.mp spelled
  obtain ⟨item, front, rfl, itemKind, -, inFront⟩ := spells_cons.mp inFront
  obtain ⟨start, front, rfl, startKind, -, inFront⟩ := spells_cons.mp inFront
  obtain ⟨keyword, front, rfl, keywordKind, keywordIs, inFront⟩ := spells_cons.mp inFront
  obtain ⟨word, front, rfl, wordKind, -, inFront⟩ := spells_cons.mp inFront
  obtain rfl := spells_nil.mp inFront
  obtain ⟨later, starts⟩ := nameShapes_mistaken mistaken
  rw [starts] at inBack
  obtain ⟨last, later, rfl, isLast, -⟩ := List.map_eq_cons_iff.mp inBack
  obtain ⟨isCode, other⟩ := not_element_of_mistaken isLast
  refine ⟨last, by simp, isLast, ?_⟩
  have ends : Element.EndsDeclaration (keyword :: word :: last :: later) :=
    ⟨[], keyword, _, rfl, by simp, by rw [Token.isComment, keywordKind]; rfl, by simp [keywordKind]⟩
  have noLines : Spells [] (([] : List HeaderLine).map HeaderLine.shape) := rfl
  have read := readsUpTo_open doc nested noLines itemKind startKind _ ends
  have order : [item, start, keyword, word] ++ last :: later =
      [] ++ [item, start] ++ keyword :: word :: last :: later := rfl
  have refused (inside : Reading (List Element)) :
      Element.turnAt inside nested none keyword ⟨word :: last :: later, 3⟩ =
        .error (.wrongKind (.one .element) last) ⟨later, 5⟩ := by
    simp only [Element.turnAt, keywordKind]
    exact Reading.bind_of_error (readMember_refused keywordIs wordKind isCode other 3) _
  have body : Element.readMembers nested none ⟨keyword :: word :: last :: later, 2⟩ =
      .failed (.wrongKind (.one .element) last) ⟨later, 5⟩ :=
    Element.membersFrom_of_error (refused _)
  rw [order, read]
  change (readFrom _ nested none ⟨keyword :: word :: last :: later, 2⟩).error = _
  rw [readFrom, body]
  rfl

/-- A property may have any public name but four words, which are still taken for something else
behind its type: then reading fails at the name. -/
theorem read_propertyName (type name : String) (isType : Lexeme.IsIdentifier type.toList)
    (plain : type.toList ∉ Lexeme.specialWords) (isName : Lexeme.IsIdentifier name.toList)
    (isPublic : Text.startsWith name "_" = false) :
    let tokenized := Token.tokenize (propertyText type name)
    let parsed := doc.read nested tokenized.tokens
    tokenized.error = none ∧
      (name ∉ ["import", "signal", "enum", "function"] →
        parsed.error = none ∧ parsed.document = doc.withProperty type name) ∧
      (name ∈ ["import", "signal", "enum", "function"] → ∃ token ∈ tokenized.tokens,
        token.shape = mistakenShape name ∧
          parsed.error = some (.wrongKind (.one .element) token)) := by
  intro tokenized parsed
  obtain ⟨noError, spelled⟩ := Token.tokenize_property isType plain isName
  refine ⟨noError, ?_, ?_⟩
  · intro usual
    simp only [List.mem_cons, not_or] at usual
    have isElement : nameShapes ["signal", "enum", "function"] name =
        [(.element, name), (.blockEnd, "\x7d")] := by
      simp [nameShapes, usual]
    rw [propertyShapes, isElement] at spelled
    exact doc.read_property nested isPublic spelled
  · intro mistaken
    exact doc.read_mistaken nested mistaken spelled

/-- A property with the name `property`, and one with the name `enum`. -/
theorem read_propertyName_samples :
    let doc : Document := { info := { name := "A" } }
    let named := doc.read true (Token.tokenize (propertyText "int" "property")).tokens
    let failed := doc.read true (Token.tokenize (propertyText "int" "enum")).tokens
    (named.error = none ∧
        named.document.elements = [.property { name := "property", type := "int" }]) ∧
      ∃ token, token.shape = (.keyword, "enum") ∧
        failed.error = some (.wrongKind (.one .element) token) := by
  intro doc named failed
  have isType : Lexeme.IsIdentifier "int".toList := ⟨by decide, List.all_eq_true.mp (by decide)⟩
  have property := read_propertyName doc true "int" "property" isType (by decide)
    ⟨by decide, List.all_eq_true.mp (by decide)⟩ (by decide)
  have enumeration := read_propertyName doc true "int" "enum" isType (by decide)
    ⟨by decide, List.all_eq_true.mp (by decide)⟩ (by decide)
  obtain ⟨noError, document⟩ := property.2.1 (by decide)
  obtain ⟨token, -, shape, error⟩ := enumeration.2.2 (by decide)
  refine ⟨⟨noError, ?_⟩, token, shape, error⟩
  show (doc.read true (Token.tokenize (propertyText "int" "property")).tokens).document.elements = _
  rw [document]
  rfl

/-- The word `signal` is no name behind the type of a property. -/
theorem read_propertyName_signal :
    let tokenized := Token.tokenize "Item \x7b\nproperty int signal\n\x7d"
    let parsed := Document.read { info := { name := "A" } } true tokenized.tokens
    tokenized.error = none ∧ parsed.document.elements = [] ∧
      parsed.error.map ReadError.message =
        some "Expected token of type 'element', got 'keyword' instead" := by
  decide +kernel

end Document

end QmlDoc
