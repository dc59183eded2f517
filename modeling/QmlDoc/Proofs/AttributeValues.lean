import QmlDoc.Proofs.LocalReading
import QmlDoc.Proofs.ObjectLines

set_option autoImplicit false

namespace QmlDoc

open Token (codeOf)

/-- The value of an attribute that has this token behind its colon. -/
def Token.attributeValue (token : Token) : String :=
  if token.kind = .blockStart then "" else token.value

/-- Tokens that a body passes over, with the block if they start one. -/
def Token.isPassed (token : Token) : Bool :=
  token.isComment || token.kind = .blockStart || Element.isIdle true token.kind

/-- The tokens end with the name of an attribute and its colon. -/
def EndsInColon (name : String) (tokens : List Token) : Prop :=
  ∃ earlier first notes colon, tokens = earlier ++ first :: (notes ++ [colon]) ∧
    first.kind = .attributeName ∧ first.value = name ∧
    (∀ note ∈ notes, note.isComment = true) ∧ colon.kind = .char

theorem EndsInColon.append {name : String} {tokens : List Token} (ends : EndsInColon name tokens)
    (front : List Token) : EndsInColon name (front ++ tokens) := by
  obtain ⟨earlier, first, notes, colon, rfl, rest⟩ := ends
  exact ⟨front ++ earlier, first, notes, colon, by rw [List.append_assoc], rest⟩

theorem EndsInColon.hasCode {name : String} {tokens : List Token}
    (ends : EndsInColon name tokens) : codeOf tokens ≠ [] := by
  obtain ⟨earlier, first, notes, colon, rfl, isName, -⟩ := ends
  have isCode : first.isComment = false := by
    rw [Token.isComment, isName]
    rfl
  rw [Token.codeOf_append, Token.codeOf_code _ isCode]
  simp

namespace Element

open Reading

def inner? : Element → Option (List Element)
  | component _ elements | inlineType _ elements => some elements
  | _ => none

/-- The body that is found by going down into the elements at these places. -/
def bodyAt? : List Nat → List Element → Option (List Element)
  | [], elements => some elements
  | place :: path, elements => (elements[place]?.bind inner?).bind (bodyAt? path)

/-- The attribute at a place of the body that the path leads to. -/
def attrAt? (path : List Nat) (place : Nat) (elements : List Element) : Option Attribute :=
  (bodyAt? path elements).bind fun body => body[place]?.bind attr?

/-- In the body that the path leads to, the attribute stands behind the elements `before`. -/
def HoldsAt (path : List Nat) (before : List Element) (a : Attribute)
    (elements : List Element) : Prop :=
  ∃ later, bodyAt? path elements = some (before ++ attr a :: later)

section Places

variable {path : List Nat} {before elements : List Element} {a : Attribute} {element : Element}
  {later : List Element}

theorem attr?_eq_some_iff : element.attr? = some a ↔ element = attr a := by
  cases element <;> simp [attr?]

theorem HoldsAt.attrAt? (holds : HoldsAt path before a elements) :
    attrAt? path before.length elements = some a := by
  obtain ⟨later, found⟩ := holds
  simp [Element.attrAt?, found, attr?]

theorem exists_holdsAt {place : Nat} (found : Element.attrAt? path place elements = some a) :
    ∃ before, before.length = place ∧ HoldsAt path before a elements := by
  obtain ⟨body, isBody, there⟩ := Option.bind_eq_some_iff.mp found
  obtain ⟨element, isThere, isAttr⟩ := Option.bind_eq_some_iff.mp there
  obtain rfl := attr?_eq_some_iff.mp isAttr
  obtain ⟨bound, same⟩ := List.getElem?_eq_some_iff.mp isThere
  refine ⟨body.take place, List.length_take_of_le bound.le, body.drop (place + 1), ?_⟩
  rw [isBody, ← same, ← List.drop_eq_getElem_cons bound, List.take_append_drop]

theorem holdsAt_inside {inside : List Element} (holder : element.inner? = some inside) :
    HoldsAt (0 :: path) before a (element :: later) ↔ HoldsAt path before a inside := by
  simp [HoldsAt, bodyAt?, holder]

theorem holdsAt_behind {place : Nat} :
    HoldsAt ((place + 1) :: path) before a (element :: later) ↔
      HoldsAt (place :: path) before a later := by
  simp [HoldsAt, bodyAt?]

/-- The attribute is the first element, stands inside of it or behind it. -/
theorem HoldsAt.cases_cons (holds : HoldsAt path before a (element :: later)) :
    (element = attr a ∧ path = [] ∧ before = []) ∨
      (∃ path' inside, path = 0 :: path' ∧ element.inner? = some inside ∧
        HoldsAt path' before a inside) ∨
      ∃ path' before', HoldsAt path' before' a later ∧
        ∀ b other, HoldsAt path' before' b other → HoldsAt path before b (element :: other) := by
  obtain _ | ⟨place, path⟩ := path
  · obtain ⟨behind, order⟩ := holds
    have order : element :: later = before ++ attr a :: behind := Option.some.inj order
    cases before with
    | nil => exact Or.inl ⟨(List.cons.inj order).1, rfl, rfl⟩
    | cons first before =>
        obtain ⟨rfl, rfl⟩ := List.cons.inj order
        refine Or.inr (Or.inr ⟨[], before, ⟨behind, rfl⟩, ?_⟩)
        rintro b other ⟨rest, same⟩
        exact ⟨rest, by rw [bodyAt?, Option.some.inj same, List.cons_append]⟩
  · cases place with
    | zero =>
        cases holder : element.inner? with
        | none => simp [HoldsAt, bodyAt?, holder] at holds
        | some inside =>
            exact Or.inr (Or.inl ⟨path, inside, rfl, rfl, (holdsAt_inside holder).mp holds⟩)
    | succ place =>
        exact Or.inr (Or.inr ⟨place :: path, before, holdsAt_behind.mp holds,
          fun b other => holdsAt_behind.mpr⟩)

/-- The attribute at this place is the one that gives an object its id. -/
def IsId (path : List Nat) (place : Nat) (a : Attribute) (elements : List Element) : Prop :=
  a.name = "id" ∧ ∀ i < place, ∀ other, attrAt? path i elements = some other → other.name ≠ "id"

def idLines (info : ComponentInfo) (id : String) : List String :=
  if id = "" then []
  else info.comment.toList.filter (· ≠ "") ++ [simpleName info.name ++ " " ++ id ++ ";"]

/-- An object with the body that the path leads to has this id and is declared under it. -/
def DeclaredAs (path : List Nat) (id : String) (elements : List Element) : Prop :=
  ∃ body, bodyAt? path elements = some body ∧ objectId body = some id ∧
    ∀ info, ownLines info body = idLines info id

theorem ownLines_of_objectId {id : String} (hasId : objectId elements = some id)
    (info : ComponentInfo) : ownLines info elements = idLines info id := by
  rw [ownLines, hasId, idLines]
  split
  · rename_i none
    cases none
  · rename_i empty
    rw [if_pos (Option.some.inj empty)]
  · rename_i given some
    obtain rfl := Option.some.inj some
    rw [if_neg given]

theorem HoldsAt.declaredAs (holds : HoldsAt path before a elements) (named : a.name = "id")
    (first : ∀ other, attr other ∈ before → other.name ≠ "id") :
    DeclaredAs path a.value elements := by
  obtain ⟨later, found⟩ := holds
  have hasId : objectId (before ++ attr a :: later) = some a.value :=
    (objectId_eq_some_iff _ _).mpr ⟨before, a, later, rfl, named, rfl, first⟩
  exact ⟨_, found, hasId, ownLines_of_objectId hasId⟩

theorem IsId.first (isId : IsId path before.length a elements)
    (holds : HoldsAt path before a elements) :
    ∀ other, attr other ∈ before → other.name ≠ "id" := by
  intro other member
  obtain ⟨later, found⟩ := holds
  obtain ⟨i, isOther⟩ := List.getElem?_of_mem member
  have bound := (List.getElem?_eq_some_iff.mp isOther).1
  refine isId.2 i bound other ?_
  simp [Element.attrAt?, found, List.getElem?_append_left bound, isOther, attr?]

end Places

/-- An attribute that could be read: its colon, and the token or the block that is its value. -/
theorem readAttribute_eq_ok_iff {name : Token} {note : Option Token} {r s : Reader}
    {found : Element} :
    readAttribute name note r = .ok found s ↔ ∃ colon value t u,
      r.Finds colon t ∧ colon.kind = .char ∧ t.Spans [value] u ∧
      (if value.kind = .blockStart then Reading.skipBlock u = .ok () s else u = s) ∧
      found = attr { name := name.value, value := value.attributeValue,
                     doc := (note.map Token.value).getD "" } := by
  constructor
  · intro read
    obtain ⟨colon, t, atColon, behind⟩ := bind_eq_ok_iff.mp read
    obtain ⟨value, u, atValue, behind⟩ := bind_eq_ok_iff.mp behind
    obtain ⟨finds, isColon⟩ := expect_one_eq_ok_iff.mp atColon
    refine ⟨colon, value, t, u, finds, isColon, any_eq_ok_iff.mp atValue, ?_⟩
    rw [Token.attributeValue]
    by_cases isBlock : value.kind = .blockStart
    · rw [if_pos isBlock] at behind ⊢
      rw [if_pos isBlock]
      obtain ⟨_, v, skipped, done⟩ := bind_eq_ok_iff.mp behind
      obtain ⟨rfl, rfl⟩ := pure_eq_ok_iff.mp done
      exact ⟨skipped, rfl⟩
    · rw [if_neg isBlock] at behind ⊢
      rw [if_neg isBlock]
      obtain ⟨rfl, rfl⟩ := pure_eq_ok_iff.mp behind
      exact ⟨rfl, rfl⟩
  · rintro ⟨colon, value, t, u, finds, isColon, spans, behind, rfl⟩
    refine bind_eq_ok_iff.mpr ⟨colon, t, expect_one_eq_ok_iff.mpr ⟨finds, isColon⟩, ?_⟩
    refine bind_eq_ok_iff.mpr ⟨value, u, any_eq_ok_iff.mpr spans, ?_⟩
    rw [Token.attributeValue]
    by_cases isBlock : value.kind = .blockStart
    · rw [if_pos isBlock] at behind ⊢
      rw [if_pos isBlock]
      exact bind_eq_ok_iff.mpr ⟨(), s, behind, rfl⟩
    · rw [if_neg isBlock] at behind ⊢
      rw [if_neg isBlock, behind]
      rfl

/-- A comment right behind the colon is the value. -/
theorem readAttribute_comment (name : Token) (note : Option Token) {notes : List Token}
    {colon comment : Token} (areNotes : ∀ note ∈ notes, note.isComment = true)
    (isCode : colon.isComment = false) (isColon : colon.kind = .char)
    (isComment : comment.isComment = true) (rest : List Token) (idx : Nat) :
    readAttribute name note ⟨notes ++ [colon] ++ comment :: rest, idx⟩ = .ok
      (attr { name := name.value, value := comment.value, doc := (note.map Token.value).getD "" })
      ⟨rest, idx + notes.length + 2⟩ := by
  have noBlock : comment.kind ≠ .blockStart := by
    intro isBlock
    rw [Token.isComment, isBlock] at isComment
    cases isComment
  refine readAttribute_eq_ok_iff.mpr ⟨colon, comment, ⟨comment :: rest, idx + notes.length + 1⟩,
    ⟨rest, idx + notes.length + 2⟩, ?_, isColon, ⟨rfl, rfl⟩, ?_, ?_⟩
  · exact ⟨notes, by simp, areNotes, isCode, rfl⟩
  · rw [if_neg noBlock]
  · rw [Token.attributeValue, if_neg noBlock]

/-- The token starts an element that holds a body. From `r` behind the token, the body starts
at `t`. -/
inductive Opens (nested : Bool) (pending : Option Token) (token : Token) :
    (List Element → Element) → Reader → Reader → Prop
  | object {r t : Reader} (kindIs : token.kind = .component) (isNested : nested = true)
      (opened : openBlock r = .ok () t) :
      Opens nested pending token
        (component { name := token.value, comment := pending.map Token.value }) r t
  | inlineType {r t : Reader} {info : TypeInfo} (kindIs : token.kind = .inlineComponent)
      (read : readInlineInfo token pending r = .ok info t) :
      Opens nested pending token (inlineType info) r t

namespace Opens

variable {nested : Bool} {pending : Option Token} {token : Token}
  {make : List Element → Element} {r s t : Reader}

theorem inner? (opens : Opens nested pending token make r t) (inside : List Element) :
    (make inside).inner? = some inside := by
  cases opens <;> rfl

theorem again (opens : Opens nested pending token make r t) :
    r.Repeated (Opens nested pending token make) t := by
  cases opens with
  | object kindIs isNested opened =>
      exact (local_openBlock.again opened).imp fun _ _ => .object kindIs isNested
  | inlineType kindIs read =>
      exact ((local_readInlineInfo token pending).again read).imp fun _ _ => .inlineType kindIs

theorem does (opens : Opens nested pending token make r t) {inside : List Element}
    (read : readMembers true none t = ⟨inside, none, s⟩) :
    Does nested pending token r (.member pending (some (make inside))) s := by
  cases opens with
  | object kindIs isNested opened =>
      exact .object kindIs isNested (readBody_eq_iff.mpr ⟨t, opened, read⟩)
  | inlineType kindIs found => exact .inlineType kindIs found read

/-- With such a token a round can do nothing else. -/
theorem of_does (opens : Opens nested pending token make r t) {use : Use}
    (does : Does nested pending token r use s) :
    ∃ inside, readMembers true none t = ⟨inside, none, s⟩ ∧
      use = .member pending (some (make inside)) := by
  cases opens with
  | object kindIs isNested opened =>
      obtain ⟨-, inside, read, rfl⟩ | ⟨notNested, -⟩ := does.of_component kindIs
      · exact ⟨inside, (readBody_of_open opened true).symm.trans read, rfl⟩
      · cases isNested.symm.trans notNested
  | inlineType kindIs found =>
      cases does with
      | comment isComment =>
          rw [Token.isComment, kindIs] at isComment
          cases isComment
      | inlineType _ read body =>
          cases found.symm.trans read
          exact ⟨_, body, rfl⟩
      | idle isIdle =>
          rw [kindIs] at isIdle
          cases isIdle
      | declaration other _ | attr other _ | object other _ _ | block other _ =>
          cases kindIs.symm.trans other

theorem not_end (opens : Opens nested pending token make r t) : token.kind ≠ .blockEnd := by
  intro isEnd
  cases opens with
  | object kindIs _ _ | inlineType kindIs _ => cases kindIs.symm.trans isEnd

/-- The body inside can be read if all can. -/
theorem readMembers_inside {rest : List Token} {idx : Nat}
    (opens : Opens nested pending token make ⟨rest, idx + 1⟩ t)
    (read : (readMembers nested pending ⟨token :: rest, idx⟩).error = none) :
    ∃ inside s, readMembers true none t = ⟨inside, none, s⟩ ∧
      readMembers nested pending ⟨token :: rest, idx⟩ =
        (readMembers nested none s).after [make inside] := by
  obtain ⟨behind, use, s, does, body⟩ := exists_does opens.not_end read
  obtain ⟨inside, within, rfl⟩ := opens.of_does does
  exact ⟨inside, s, within, body⟩

theorem readMembers_eq {rest : List Token} {idx : Nat}
    (opens : Opens nested pending token make ⟨rest, idx + 1⟩ t) {inside : List Element}
    (read : readMembers true none t = ⟨inside, none, s⟩) :
    readMembers nested pending ⟨token :: rest, idx⟩ =
      (readMembers nested none s).after [make inside] :=
  (opens.does read).readMembers_eq

end Opens

theorem Does.of_attr {nested : Bool} {pending doc : Option Token} {token : Token} {r s : Reader}
    {a : Attribute}
    (does : Does nested pending token r (.member doc (some (Element.attr a))) s) :
    token.kind = .attributeName ∧ readAttribute token pending r = .ok (Element.attr a) s := by
  cases does with
  | declaration kindIs read =>
      have other := of_readMember (fun element => element.attr? = none) (fun _ => rfl)
        (fun _ => rfl) (fun _ => rfl) (fun _ => rfl) read (Element.attr a) rfl
      cases other
  | attr kindIs read => exact ⟨kindIs, read⟩

/-- An element with a body was read by reading the body. -/
theorem Does.opens {nested : Bool} {pending doc : Option Token} {token : Token} {r s : Reader}
    {element : Element} {inside : List Element}
    (does : Does nested pending token r (.member doc (some element)) s)
    (holder : element.inner? = some inside) :
    ∃ make t, Opens nested pending token make r t ∧ element = make inside ∧
      readMembers true none t = ⟨inside, none, s⟩ := by
  cases does with
  | declaration kindIs read =>
      have noBody := of_readMember (fun element => element.inner? = none) (fun _ => rfl)
        (fun _ => rfl) (fun _ => rfl) (fun _ => rfl) read element rfl
      cases noBody.symm.trans holder
  | attr kindIs read =>
      obtain ⟨colon, value, t, u, -, -, -, -, rfl⟩ := readAttribute_eq_ok_iff.mp read
      cases holder
  | object kindIs isNested read =>
      obtain rfl : _ = inside := Option.some.inj holder
      obtain ⟨t, opened, body⟩ := readBody_eq_iff.mp read
      exact ⟨_, t, .object kindIs isNested opened, rfl, body⟩
  | inlineType kindIs read body =>
      obtain rfl : _ = inside := Option.some.inj holder
      exact ⟨_, _, .inlineType kindIs read, rfl, body⟩

/-- Whatever comment is pending and wherever the tokens stand, the body is read up to `ends`. -/
def ReadsTo (nested : Bool) (tokens ends : List Token) : Prop :=
  ∀ pending idx, ∃ elements place,
    readMembers nested pending ⟨tokens, idx⟩ = ⟨elements, none, ⟨ends, place⟩⟩

theorem readsTo_of_readMembers {nested : Bool} {pending : Option Token} {r s : Reader}
    {elements : List Element} (read : readMembers nested pending r = ⟨elements, none, s⟩) :
    ReadsTo nested r.rest s.rest := by
  intro other idx
  obtain ⟨found, there⟩ := readMembers_withComment read other
  obtain ⟨tokens, spans, again⟩ := bodyRepeats r nested other found s there
  refine ⟨found, idx + tokens.length, ?_⟩
  rw [spans.1]
  exact again s.rest idx (SameNext.refl _)

theorem ReadsTo.of_does {nested : Bool} {token : Token} {rest behind ends : List Token}
    (later : ReadsTo nested behind ends)
    (does : ∀ pending idx, ∃ use place,
      Does nested pending token ⟨rest, idx⟩ use ⟨behind, place⟩) :
    ReadsTo nested (token :: rest) ends := by
  intro pending idx
  obtain ⟨use, place, does⟩ := does pending (idx + 1)
  obtain ⟨elements, spot, read⟩ := later (Round.leaves ⟨token, idx, [], use⟩ pending) place
  exact ⟨_, spot, does.readMembers_eq.trans (Body.after_eq_iff.mpr ⟨elements, read, rfl⟩)⟩

theorem ReadsTo.comments {nested : Bool} {tokens ends : List Token}
    (later : ReadsTo nested tokens ends) {notes : List Token}
    (areComments : ∀ note ∈ notes, note.isComment = true) :
    ReadsTo nested (notes ++ tokens) ends := by
  induction notes with
  | nil => exact later
  | cons note notes ih =>
      have behind := ih fun each member => areComments each (List.mem_cons_of_mem _ member)
      refine behind.of_does fun pending idx => ⟨_, idx, .comment ?_⟩
      exact areComments note List.mem_cons_self

/-- The value of an attribute is passed over where it stands behind another value. -/
theorem ReadsTo.value {nested : Bool} {value : Token} {rest ends : List Token} {idx : Nat}
    {s : Reader} (isPassed : value.isPassed = true)
    (behind : if value.kind = .blockStart then Reading.skipBlock ⟨rest, idx⟩ = .ok () s
      else (⟨rest, idx⟩ : Reader) = s)
    (later : ReadsTo nested s.rest ends) : ReadsTo nested (value :: rest) ends := by
  by_cases isBlock : value.kind = .blockStart
  · rw [if_pos isBlock] at behind
    obtain ⟨tokens, ⟨order, -⟩, again⟩ := local_skipBlock.again behind
    obtain rfl : rest = tokens ++ s.rest := order
    refine later.of_does fun pending place => ⟨.pass, place + tokens.length, .block isBlock ?_⟩
    exact again s.rest place (SameNext.refl _)
  · rw [if_neg isBlock] at behind
    subst behind
    refine later.of_does fun pending place => ?_
    simp only [Token.isPassed, isBlock, decide_false, Bool.or_false, Bool.or_eq_true] at isPassed
    rcases isPassed with isComment | idle
    · exact ⟨_, place, .comment isComment⟩
    · refine ⟨_, place, .idle ?_⟩
      revert idle
      cases value.kind <;> simp [isIdle]

/-- The attribute at this place of a body is read from the tokens `front`, which end with its colon,
and from `value` behind them. Comments before the value take its place, and a value that is passed
over then leaves the end of the body where it was. -/
structure ValueBehind (nested : Bool) (pending : Option Token) (path : List Nat)
    (before : List Element) (a : Attribute) (front : List Token) (value : Token)
    (rest ends : List Token) : Prop where
  colon : EndsInColon a.name front
  isValue : a.value = value.attributeValue
  inserted (comment : Token) (more : List Token) (idx : Nat)
    (areComments : ∀ note ∈ comment :: more, note.isComment = true) :
    let found := readMembers nested pending ⟨front ++ comment :: (more ++ value :: rest), idx⟩
    (found.error = none → HoldsAt path before { a with value := comment.value } found.elements) ∧
      (value.isPassed = true → ∃ elements place, found = ⟨elements, none, ⟨ends, place⟩⟩)

/-- Up to the colon nothing depends on what follows it. -/
theorem ValueBehind.sameNext {nested : Bool} {pending : Option Token} {path : List Nat}
    {before : List Element} {a : Attribute} {front : List Token} {value : Token}
    {rest ends tokens : List Token}
    (lies : ValueBehind nested pending path before a front value rest ends)
    (order : tokens = front ++ value :: rest) (other : List Token) :
    SameNext tokens (front ++ other) := by
  rw [order]
  exact SameNext.of_code lies.colon.hasCode _ _

/-- The value of the attribute is among the tokens. -/
def HasValue (nested : Bool) (pending : Option Token) (path : List Nat) (before : List Element)
    (a : Attribute) (tokens ends : List Token) : Prop :=
  ∃ front value rest, tokens = front ++ value :: rest ∧
    ValueBehind nested pending path before a front value rest ends

section Inserted

variable {nested : Bool} {pending : Option Token} {path : List Nat} {before : List Element}
  {a : Attribute} {r s : Reader} {ends : List Token}

/-- The attribute itself. -/
theorem hasValue_attr {name : Token} {ahead : List Token} {idx : Nat}
    (isName : name.kind = .attributeName)
    (read : readAttribute name pending ⟨ahead, idx⟩ = .ok (attr a) s)
    (later : ReadsTo nested s.rest ends) :
    HasValue nested pending [] [] a (name :: ahead) ends := by
  obtain ⟨colon, value, ⟨_, _⟩, ⟨rest, place⟩, ⟨notes, order, areComments, isCode, -⟩, isColon,
    ⟨rfl, -⟩, behind, same⟩ := readAttribute_eq_ok_iff.mp read
  obtain rfl : ahead = notes ++ colon :: value :: rest := order
  obtain rfl := attr.inj same
  refine ⟨name :: (notes ++ [colon]), value, rest, by simp, ?_, rfl, ?_⟩
  · exact ⟨[], name, notes, colon, rfl, isName, rfl, areComments, isColon⟩
  intro comment more idx areNotes
  have readNow := readAttribute_comment name pending areComments isCode isColon
    (areNotes comment List.mem_cons_self) (more ++ value :: rest) (idx + 1)
  have body := (Does.attr isName readNow : Does nested _ _ _ _ _).readMembers_eq
  dsimp only
  rw [List.cons_append, body]
  refine ⟨fun _ => ⟨_, rfl⟩, fun isPassed => ?_⟩
  have onward := (ReadsTo.value isPassed behind later).comments
    fun note member => areNotes note (List.mem_cons_of_mem _ member)
  obtain ⟨elements, spot, found⟩ := onward none (idx + 1 + notes.length + 2)
  exact ⟨_, spot, Body.after_eq_iff.mpr ⟨elements, found, rfl⟩⟩

/-- An attribute behind what a round adds. -/
theorem Takes.hasValue {round : Round} {path' : List Nat} {before' : List Element}
    (takes : Takes nested pending r round s)
    (place : ∀ b other, HoldsAt path' before' b other →
      HoldsAt path before b (round.adds pending ++ other))
    (has : HasValue nested (round.leaves pending) path' before' a s.rest ends) :
    HasValue nested pending path before a r.rest ends := by
  obtain ⟨front, value, rest, order, lies⟩ := has
  obtain ⟨tokens, spans, again⟩ := takes.again fun t _ => bodyRepeats t
  refine ⟨tokens ++ front, value, rest, by rw [spans.1, order, List.append_assoc],
    lies.colon.append tokens, lies.isValue, ?_⟩
  intro comment more idx areComments
  have body :=
    (again _ idx (lies.sameNext order (comment :: (more ++ value :: rest)))).readMembers_eq
  obtain ⟨holds, reads⟩ := lies.inserted comment more (idx + tokens.length) areComments
  dsimp only
  rw [List.append_assoc, body]
  refine ⟨fun noError => place _ _ (holds noError), fun isPassed => ?_⟩
  obtain ⟨elements, spot, found⟩ := reads isPassed
  exact ⟨_, spot, Body.after_eq_iff.mpr ⟨elements, found, rfl⟩⟩

/-- An attribute inside of an element with a body. -/
theorem Opens.hasValue {token : Token} {make : List Element → Element} {t : Reader}
    (opens : Opens nested pending token make r t)
    (has : HasValue true none path before a t.rest s.rest)
    (later : ReadsTo nested s.rest ends) :
    HasValue nested pending (0 :: path) before a (token :: r.rest) ends := by
  obtain ⟨front, value, rest, order, lies⟩ := has
  obtain ⟨head, spans, again⟩ := opens.again
  refine ⟨token :: head ++ front, value, rest, by simp [spans.1, order],
    lies.colon.append _, lies.isValue, ?_⟩
  intro comment more idx areComments
  have opensNow := again _ (idx + 1) (lies.sameNext order (comment :: (more ++ value :: rest)))
  obtain ⟨holds, reads⟩ := lies.inserted comment more (idx + 1 + head.length) areComments
  dsimp only
  rw [List.append_assoc, List.cons_append]
  constructor
  · intro noError
    obtain ⟨within, u, found, body⟩ := opensNow.readMembers_inside noError
    rw [found] at holds
    rw [body]
    exact (holdsAt_inside (opensNow.inner? within)).mpr (holds rfl)
  · intro isPassed
    obtain ⟨within, spot, found⟩ := reads isPassed
    obtain ⟨elements, place, onward⟩ := later none spot
    exact ⟨_, place, (opensNow.readMembers_eq found).trans
      (Body.after_eq_iff.mpr ⟨elements, onward, rfl⟩)⟩

theorem not_holdsAt_nil : ¬HoldsAt path before a [] := by
  rintro ⟨later, found⟩
  cases path with
  | nil => simp [bodyAt?] at found
  | cons place path => cases found

theorem not_holdsAt_pending (pending : Option Token) :
    ¬HoldsAt path before a (ofPending pending) := by
  cases pending with
  | none => exact not_holdsAt_nil
  | some note =>
      intro holds
      obtain ⟨same, -⟩ | ⟨path', inside, -, holder, -⟩ | ⟨path', before', none, -⟩ :=
        HoldsAt.cases_cons holds
      · cases same
      · cases holder
      · exact not_holdsAt_nil none

/-- The element that a round adds is a comment, or the round makes it. -/
theorem Round.adds_cases (round : Round) (pending : Option Token) :
    round.adds pending = [] ∨ ∃ element, round.adds pending = [element] ∧
      ((∃ text, element = comment text) ∨ ∃ doc, round.use = .member doc (some element)) := by
  rw [Round.adds]
  split
  · cases pending with
    | none => exact Or.inl rfl
    | some note => exact Or.inr ⟨_, rfl, Or.inl ⟨_, rfl⟩⟩
  · exact Or.inl rfl
  · rename_i doc made isMade
    cases made with
    | none => exact Or.inl rfl
    | some element => exact Or.inr ⟨element, rfl, Or.inr ⟨doc, isMade⟩⟩

/-- Every attribute of a body, at any depth, has its value among the tokens. -/
theorem readMembers_hasValue {elements : List Element}
    (read : readMembers nested pending r = ⟨elements, none, s⟩)
    (holds : HoldsAt path before a elements) :
    HasValue nested pending path before a r.rest s.rest := by
  induction size : r.rest.length using Nat.strongRecOn
    generalizing nested pending r s path before elements with
  | ind size ih =>
      subst size
      have noError : (readMembers nested pending r).error = none := by rw [read]
      rcases ends_or_takes noError with ⟨t, ends, closed⟩ | ⟨round, t, takes⟩
      · cases closed.symm.trans read
        exact absurd holds (not_holdsAt_pending pending)
      obtain ⟨later, behind, rfl⟩ := Body.after_eq_iff.mp (takes.readMembers_eq.symm.trans read)
      have onward := readsTo_of_readMembers behind
      rcases round.adds_cases pending with none | ⟨element, one, origin⟩
      · rw [none] at holds
        refine takes.hasValue (fun b other holds => ?_) (ih _ takes.length_lt behind holds rfl)
        rw [none]
        exact holds
      rw [one] at holds
      have does := takes.does
      rcases holds.cases_cons with ⟨rfl, rfl, rfl⟩ | ⟨path, inside, rfl, holder, within⟩ | rest
      · obtain ⟨text, same⟩ | ⟨doc, made⟩ := origin
        · cases same
        rw [made] at does
        obtain ⟨isName, found⟩ := does.of_attr
        rw [takes.order]
        exact hasValue_attr isName found onward
      · obtain ⟨text, rfl⟩ | ⟨doc, made⟩ := origin
        · cases holder
        rw [made] at does
        obtain ⟨make, u, opens, rfl, body⟩ := does.opens holder
        have shorter : u.rest.length < r.rest.length := by
          obtain ⟨head, spans, -⟩ := opens.again
          rw [takes.order, List.length_cons]
          exact Nat.lt_succ_of_le spans.length_le
        rw [takes.order]
        exact opens.hasValue (ih _ shorter body within rfl) onward
      · obtain ⟨path', before', holds, place⟩ := rest
        refine takes.hasValue (fun b other holds => ?_) (ih _ takes.length_lt behind holds rfl)
        rw [one]
        exact place b other holds

end Inserted

end Element

namespace Document

open Element (attrAt? IsId DeclaredAs)

/-- What is taken in depends on the tokens up to where this ends. -/
theorem takeFrom_again {take : Document → Token → Except ReadError (Document × Bool)}
    (tokens : List Token) : ∀ {doc named : Document} {idx : Nat} {s : Reader},
    doc.takeFrom take idx tokens = ⟨named, none, s⟩ →
      Reader.Repeated (fun a b => doc.takeFrom take a.idx a.rest = ⟨named, none, b⟩)
        ⟨tokens, idx⟩ s := by
  induction tokens with
  | nil =>
      intro doc named idx s read
      cases read
      refine ⟨[], Reader.spans_nil.mpr rfl, fun rest idx same => ?_⟩
      obtain rfl := same.2.mp rfl
      rfl
  | cons token tokens ih =>
      intro doc named idx s read
      rw [takeFrom] at read
      split at read
      next next taken =>
          obtain ⟨front, spans, again⟩ := ih read
          refine ⟨token :: front, Reader.spans_cons.mpr ⟨tokens, rfl, spans⟩, ?_⟩
          intro rest idx same
          have behind := again rest (idx + 1) same
          rw [Nat.add_assoc, Nat.add_comm 1] at behind
          rw [List.cons_append, takeFrom, taken]
          exact behind
      next next taken =>
          cases read
          refine ⟨[token], ⟨rfl, rfl⟩, fun rest idx _ => ?_⟩
          change takeFrom doc take idx (token :: rest) = _
          rw [takeFrom, taken]
          rfl
      next => cases read

theorem readFooter_error_iff (tokens : List Token) : ∀ (doc : Document) (idx : Nat),
    (doc.readFooter ⟨tokens, idx⟩).error = none ↔
      ∀ token ∈ tokens, token.isComment = true := by
  induction tokens with
  | nil => intro doc idx; simp [readFooter, takeFrom]
  | cons token rest ih =>
      intro doc idx
      rw [readFooter, takeFrom, takeFooter, List.forall_mem_cons]
      by_cases isComment : token.isComment = true
      · rw [if_pos isComment]
        exact (ih _ _).trans (and_iff_right isComment).symm
      · rw [if_neg isComment]
        simp [isComment]

section Parts

variable {doc named : Document} {tokens : List Token} {r s : Reader}

/-- A file whose body starts at `s` can be read if its body can and nothing but comments follows. -/
theorem read_error_iff (nested : Bool)
    (header : doc.readHeader (Reader.ofTokens tokens) = ⟨named, none, r⟩)
    (opened : Element.openBlock r = .ok () s) :
    (doc.read nested tokens).error = none ↔
      (Element.readMembers nested none s).error = none ∧
        ∀ token ∈ (Element.readMembers nested none s).reader.rest, token.isComment = true := by
  simp only [Document.read, header, Parsed.andThen, readBody, Element.readBody_of_open opened]
  cases (Element.readMembers nested none s).error with
  | some error => simp
  | none => exact (readFooter_error_iff _ _ _).trans (by simp)

theorem read_elements (nested : Bool)
    (header : doc.readHeader (Reader.ofTokens tokens) = ⟨named, none, r⟩)
    (opened : Element.openBlock r = .ok () s) :
    (doc.read nested tokens).document.elements =
      doc.elements ++ (Element.readMembers nested none s).elements := by
  have kept : named.elements = doc.elements := by
    have kept := doc.readHeader_elements (Reader.ofTokens tokens)
    rwa [header] at kept
  simp only [Document.read, header, Parsed.andThen, readBody, Element.readBody_of_open opened, kept]
  cases (Element.readMembers nested none s).error with
  | some error => rfl
  | none => exact readFooter_elements _ _

theorem exists_header {nested : Bool} (read : (doc.read nested tokens).error = none) :
    ∃ named r s, doc.readHeader (Reader.ofTokens tokens) = ⟨named, none, r⟩ ∧
      Element.openBlock r = .ok () s := by
  obtain ⟨s, opened, -⟩ := read_members read
  cases header : doc.readHeader (Reader.ofTokens tokens) with
  | mk named error r =>
      rw [bodyStart, header] at opened
      cases error with
      | none => exact ⟨named, r, s, rfl, opened⟩
      | some error => simp [Document.read, header, Parsed.andThen] at read

end Parts

/-- Comments between the colon of an attribute and its value: the first of them becomes the value.
This holds for every attribute of a file that can be read, in a body at any depth, and hence the
first comment also becomes the id of an object. The file can still be read if what stood behind the
colon before is passed over in a body. -/
theorem read_attributeValues (doc : Document) (nested : Bool) (tokens : List Token)
    (path : List Nat) (place : Nat) (a : Attribute) (isNew : doc.elements = [])
    (read : (doc.read nested tokens).error = none)
    (isThere : attrAt? path place (doc.read nested tokens).document.elements = some a) :
    ∃ front value rest, tokens = front ++ value :: rest ∧ EndsInColon a.name front ∧
      a.value = value.attributeValue ∧
      ∀ comment more, (∀ note ∈ comment :: more, note.isComment = true) →
        let first := (doc.read nested tokens).document.elements
        let second := doc.read nested (front ++ comment :: (more ++ value :: rest))
        (value.isPassed = true → second.error = none) ∧
          (second.error = none →
            attrAt? path place second.document.elements =
                some { a with value := comment.value } ∧
              (IsId path place a first → DeclaredAs path a.value first ∧
                DeclaredAs path comment.value second.document.elements)) := by
  obtain ⟨named, r, s, header, opened⟩ := exists_header read
  obtain ⟨noError, onlyComments⟩ := (read_error_iff nested header opened).mp read
  have elements := read_elements nested header opened
  rw [isNew, List.nil_append] at elements
  obtain ⟨before, rfl, holds⟩ := Element.exists_holdsAt isThere
  rw [elements] at holds
  obtain ⟨front, value, rest, order, lies⟩ :=
    Element.readMembers_hasValue (Element.Body.eq_of_error noError) holds
  obtain ⟨head, spans, again⟩ :=
    (takeFrom_again tokens header).trans (Element.local_openBlock.again opened)
  refine ⟨head ++ front, value, rest, ?_, lies.colon.append head, lies.isValue, ?_⟩
  · rw [List.append_assoc, ← order]
    exact spans.1
  intro comment more areComments
  obtain ⟨start, header', opened'⟩ := again _ 0
    (lies.sameNext order (comment :: (more ++ value :: rest)))
  rw [← List.append_assoc] at header'
  obtain ⟨holds', reads⟩ := lies.inserted comment more (0 + head.length) areComments
  dsimp only
  rw [elements, read_elements nested header' opened', read_error_iff nested header' opened', isNew,
    List.nil_append]
  constructor
  · intro isPassed
    obtain ⟨found, spot, done⟩ := reads isPassed
    rw [done]
    exact ⟨rfl, onlyComments⟩
  · rintro ⟨noError', -⟩
    have holds' := holds' noError'
    refine ⟨holds'.attrAt?, fun isId => ?_⟩
    have isFirst := isId.first holds
    exact ⟨holds.declaredAs isId.1 isFirst, holds'.declaredAs isId.1 isFirst⟩

/-- The id of an object, before which a comment is put. -/
theorem read_attributeValues_frame :
    let text := "Item \x7b\n    Rectangle \x7b\n        id: frame\n    \x7d\n\x7d\n"
    let tokens := (Token.tokenize text).tokens
    let doc : Document := { info := { name := "A" } }
    let a : Attribute := { name := "id", value := "frame" }
    (doc.read true tokens).error = none ∧
      attrAt? [0] 0 (doc.read true tokens).document.elements = some a ∧
      ∃ front value rest, tokens = front ++ value :: rest ∧ EndsInColon "id" front ∧
        "frame" = value.attributeValue ∧
        ∀ comment, comment.isComment = true →
          let second := doc.read true (front ++ comment :: value :: rest)
          (value.isPassed = true → second.error = none) ∧ (second.error = none →
            attrAt? [0] 0 second.document.elements = some { a with value := comment.value }) := by
  intro text tokens doc a
  have read : (doc.read true tokens).error = none := by decide +kernel
  have isThere : attrAt? [0] 0 (doc.read true tokens).document.elements = some a := by
    decide +kernel
  obtain ⟨front, value, rest, order, colon, isValue, inserted⟩ :=
    doc.read_attributeValues true tokens [0] 0 a rfl read isThere
  refine ⟨read, isThere, front, value, rest, order, colon, isValue, ?_⟩
  intro comment isComment
  obtain ⟨reads, changes⟩ := inserted comment [] (by simpa using isComment)
  exact ⟨reads, fun noError => (changes noError).1⟩

/-- A comment behind the colon of an id: it is taken for the id, and the object is declared
under it. -/
theorem read_attributeValues_comment :
    let plain := (Token.tokenize
      "Item \x7b\n    Rectangle \x7b\n        id: frame\n    \x7d\n\x7d\n").tokens
    let noted := (Token.tokenize
      "Item \x7b\n    Rectangle \x7b\n        id: /* the frame */ frame\n    \x7d\n\x7d\n").tokens
    let doc : Document := { info := { name := "A" } }
    let seen (tokens : List Token) : List (Token.Kind × String) :=
      tokens.map fun token => (token.kind, token.value)
    let id? (tokens : List Token) : Option Attribute :=
      attrAt? [0] 0 (doc.read true tokens).document.elements
    let shown (tokens : List Token) : Option String :=
      (doc.read true tokens).document.print.outcome.toOption
    seen noted = seen (plain.take 6) ++ (.comment, "/* the frame */") :: seen (plain.drop 6) ∧
      (doc.read true plain).error = none ∧ (doc.read true noted).error = none ∧
      id? plain = some { name := "id", value := "frame" } ∧
      id? noted = some { name := "id", value := "/* the frame */" } ∧
      shown plain = some "class A : public QtQuick.Item \x7b\nRectangle frame;\n\x7d;" ∧
      shown noted =
        some "class A : public QtQuick.Item \x7b\nRectangle /* the frame */;\n\x7d;" := by
  decide +kernel

end Document

end QmlDoc
