import QmlDoc.Document
import QmlDoc.Proofs.BodyComments
import QmlDoc.Proofs.ReadErrors

set_option autoImplicit false

namespace QmlDoc

namespace Document

theorem addImport_elements {doc next : Document} {line : String}
    (added : doc.addImport line = .ok next) : next.elements = doc.elements := by
  rw [addImport] at added
  split at added
  · split at added
    · cases added
      rfl
    · split at added <;> cases added <;> rfl
  · cases added

theorem addPragma_elements {doc next : Document} {line : String}
    (added : doc.addPragma line = .ok next) : next.elements = doc.elements := by
  rw [addPragma] at added
  split at added
  · split at added <;> cases added <;> rfl
  · cases added

/-- Neither the header nor the footer holds elements. -/
theorem takeFrom_elements {take : Document → Token → Except ReadError (Document × Bool)}
    (keeps : ∀ doc token found, take doc token = .ok found → found.1.elements = doc.elements)
    (tokens : List Token) : ∀ (doc : Document) (idx : Nat),
    (doc.takeFrom take idx tokens).document.elements = doc.elements := by
  induction tokens with
  | nil => intro doc idx; rfl
  | cons token rest ih =>
      intro doc idx
      rw [takeFrom]
      split
      next next taken => rw [ih, keeps doc token _ taken]
      next next taken => exact keeps doc token _ taken
      next => rfl

theorem takeHeader_elements (doc : Document) (token : Token) (found : Document × Bool)
    (taken : doc.takeHeader token = .ok found) : found.1.elements = doc.elements := by
  rw [takeHeader] at taken
  cases kindIs : token.kind <;> rw [kindIs] at taken <;> dsimp only at taken
  case importLine =>
      cases added : doc.addImport token.value <;> rw [added] at taken <;> cases taken
      exact addImport_elements added
  case pragmaLine =>
      cases added : doc.addPragma token.value <;> rw [added] at taken <;> cases taken
      exact addPragma_elements added
  all_goals cases taken
  all_goals rfl

theorem takeFooter_elements (doc : Document) (token : Token) (found : Document × Bool)
    (taken : doc.takeFooter token = .ok found) : found.1.elements = doc.elements := by
  rw [takeFooter] at taken
  split at taken
  · cases taken
    rfl
  · cases taken

theorem readHeader_elements (doc : Document) (r : Reader) :
    (doc.readHeader r).document.elements = doc.elements :=
  takeFrom_elements takeHeader_elements r.rest doc r.idx

theorem readFooter_elements (doc : Document) (r : Reader) :
    (doc.readFooter r).document.elements = doc.elements :=
  takeFrom_elements takeFooter_elements r.rest doc r.idx

def bodyStart (doc : Document) (tokens : List Token) : Reader :=
  (doc.readHeader (Reader.ofTokens tokens)).reader

/-- A file that can be read has the elements between the braces of its body. -/
theorem read_members {doc : Document} {nested : Bool} {tokens : List Token}
    (read : (doc.read nested tokens).error = none) :
    ∃ s, Element.openBlock (doc.bodyStart tokens) = .ok () s ∧
      (Reader.ofTokens tokens).Reaches s ∧ (Element.readMembers nested none s).error = none ∧
      (doc.read nested tokens).document.elements =
        doc.elements ++ (Element.readMembers nested none s).elements := by
  have kept := doc.readHeader_elements (Reader.ofTokens tokens)
  have meets := readHeader_meets tokens doc 0
  change _ ∧ (doc.readHeader (Reader.ofTokens tokens)).error = _ ∨
    _ ∧ (doc.readHeader (Reader.ofTokens tokens)).Meets (Reader.ofTokens tokens) at meets
  rw [Document.read] at read ⊢
  rw [bodyStart]
  generalize doc.readHeader (Reader.ofTokens tokens) = header at read kept meets ⊢
  obtain ⟨named, error, r⟩ := header
  cases error with
  | some error => cases read
  | none =>
      have toBody : (Reader.ofTokens tokens).Reaches r := by
        rcases meets with ⟨-, failed⟩ | ⟨-, meets⟩
        · cases failed
        · exact meets
      dsimp only [Parsed.andThen, readBody] at read kept ⊢
      cases opened : Element.openBlock r with
      | error error s =>
          rw [Element.readBody, opened] at read
          cases read
      | ok value s =>
          rw [Element.readBody_of_open opened] at read ⊢
          cases body : (Element.readMembers nested none s).error with
          | some error =>
              rw [body] at read
              cases read
          | none =>
              have onward := ((Element.openBlock_meets r).of_ok opened).1
              refine ⟨s, rfl, toBody.trans onward, body, ?_⟩
              dsimp only
              rw [readFooter_elements, kept]

end Document

namespace Element

/-- Every object ahead that can be read ends with its block. -/
def ObjectsClose (r : Reader) : Prop :=
  ∀ token s t, r.Passes token s → token.kind = .component → openBlock s = .ok () t →
    (readMembers true none t).error = none → t.Leaves (readMembers true none t).reader

theorem ObjectsClose.of_reaches {r s : Reader} (close : ObjectsClose r) (reaches : r.Reaches s) :
    ObjectsClose s :=
  fun token t u passes => close token t u (reaches.passes passes)

/-- Objects end with their blocks where blocks can be told by single tokens. -/
theorem ClearBlocks.objectsClose {tokens : List Token} (clear : ClearBlocks tokens) :
    ObjectsClose (Reader.ofTokens tokens) := by
  intro token s t passes _ opened read
  have toBody := passes.reaches.trans ((openBlock_meets s).of_ok opened).1
  have meets := membersFrom_meets (t.rest.length + 1) true none t (Nat.lt_succ_self _)
  change (readMembers true none t).Meets t at meets
  rw [Body.Meets, read] at meets
  exact meets.2 (clear.of_reaches toBody)

/-- Comments one after the other: each but the last is an element. -/
theorem readMembers_comments (nested : Bool) (rest : List Token) (notes : List Token)
    (areComments : ∀ note ∈ notes, note.isComment = true) :
    ∀ (pending : Option Token) (idx : Nat), ∃ earlier : List String,
      readMembers nested pending ⟨notes ++ rest, idx⟩ =
        (readMembers nested (notes.getLast?.or pending) ⟨rest, idx + notes.length⟩).after
          (earlier.map comment) := by
  induction notes with
  | nil => intro pending idx; exact ⟨[], rfl⟩
  | cons note notes ih =>
      intro pending idx
      have takes : Takes nested pending ⟨note :: (notes ++ rest), idx⟩ ⟨note, idx, [], .comment⟩
          ⟨notes ++ rest, idx + 1⟩ :=
        ⟨rfl, rfl, rfl, .comment (areComments note (by simp))⟩
      obtain ⟨earlier, later⟩ :=
        ih (fun each member => areComments each (by simp [member])) (some note) (idx + 1)
      refine ⟨(pending.map Token.value).toList ++ earlier, ?_⟩
      have last : (note :: notes).getLast?.or pending = notes.getLast?.or (some note) := by
        rw [List.getLast?_cons]
        cases notes.getLast? <;> rfl
      have place : idx + 1 + notes.length = idx + (note :: notes).length := by
        rw [List.length_cons]
        omega
      rw [List.cons_append, takes.readMembers_eq, last]
      change ((readMembers nested (some note) ⟨notes ++ rest, idx + 1⟩).after
        (ofPending pending)) = _
      rw [later, Body.after_after, place]
      cases pending <;> simp [ofPending]

/-- The comment that is pending behind the round, if objects are passed over: the last one between
the name of an object and its block, or the one that was pending before. -/
def Round.leavesWithout (round : Round) (pending : Option Token) : Option Token :=
  if round.token.kind = .component then
    (round.behind.takeWhile Token.isComment).getLast?.or pending
  else round.leaves pending

/-- The name of an object starts it, or is passed. -/
theorem Does.of_component {nested : Bool} {pending : Option Token} {token : Token} {r s : Reader}
    {use : Use} (does : Does nested pending token r use s) (kindIs : token.kind = .component) :
    (nested = true ∧ ∃ inner, readBody true r = ⟨inner, none, s⟩ ∧ use = .member pending (some
        (component { name := token.value, comment := pending.map Token.value } inner))) ∨
      nested = false ∧ use = .pass := by
  cases does with
  | comment isComment =>
      rw [Token.isComment, kindIs] at isComment
      cases isComment
  | object _ isNested read => exact Or.inl ⟨isNested, _, read, rfl⟩
  | idle isIdle =>
      rw [kindIs] at isIdle
      exact Or.inr ⟨by simpa [Element.isIdle] using isIdle, rfl⟩
  | declaration other _ | attr other _ | inlineType other _ _ | block other _ =>
      rw [kindIs] at other
      cases other

theorem Does.of_blockStart {nested : Bool} {pending : Option Token} {token : Token}
    {r s : Reader} {use : Use} (does : Does nested pending token r use s)
    (kindIs : token.kind = .blockStart) : Reading.skipBlock r = .ok () s ∧ use = .pass := by
  cases does with
  | comment isComment =>
      rw [Token.isComment, kindIs] at isComment
      cases isComment
  | block _ skipped => exact ⟨skipped, rfl⟩
  | idle isIdle =>
      rw [kindIs] at isIdle
      cases isIdle
  | declaration other _ | attr other _ | inlineType other _ _ | object other _ _ =>
      rw [kindIs] at other
      cases other

/-- A block in a body that can be read has an end, and reading goes on behind it. -/
theorem readMembers_block {nested : Bool} {pending : Option Token} {start : Token}
    {rest : List Token} {idx : Nat} (isStart : start.kind = .blockStart)
    (read : (readMembers nested pending ⟨start :: rest, idx⟩).error = none) :
    ∃ s, Reading.skipBlock ⟨rest, idx + 1⟩ = .ok () s ∧
      readMembers nested pending ⟨start :: rest, idx⟩ = readMembers nested pending s := by
  have goesOn : start.kind ≠ .blockEnd := by rw [isStart]; decide
  obtain ⟨behind, use, s, does, body⟩ := exists_does goesOn read
  obtain ⟨skipped, rfl⟩ := does.of_blockStart isStart
  exact ⟨s, skipped, body⟩

/-- An object that was read: comments, the start of its block, and its body. -/
theorem object_block {behind : List Token} {idx : Nat} {s : Reader} {inner : List Element}
    (read : readBody true ⟨behind ++ s.rest, idx⟩ = ⟨inner, none, s⟩) :
    ∃ start body, start.kind = .blockStart ∧
      behind = behind.takeWhile Token.isComment ++ start :: body ∧
      openBlock ⟨behind ++ s.rest, idx⟩ =
        .ok () ⟨body ++ s.rest, idx + (behind.takeWhile Token.isComment).length + 1⟩ ∧
      readMembers true none
        ⟨body ++ s.rest, idx + (behind.takeWhile Token.isComment).length + 1⟩ =
          ⟨inner, none, s⟩ := by
  cases opened : openBlock ⟨behind ++ s.rest, idx⟩ with
  | error error t =>
      rw [readBody, opened] at read
      cases read
  | ok value t =>
      obtain ⟨rest, place⟩ := t
      obtain ⟨-, start, ⟨notes, ahead, areComments, isCode, rfl⟩, isStart⟩ :=
        (openBlock_meets ⟨behind ++ s.rest, idx⟩).of_ok opened
      rw [readBody_of_open opened] at read
      obtain ⟨body, rfl, -⟩ : Reader.Reaches ⟨rest, _⟩ s := by
        have reaches := @readMembers_reaches true none ⟨rest, _⟩ (by rw [read])
        rwa [read] at reaches
      have split : behind = notes ++ start :: body :=
        List.append_cancel_right (show behind ++ s.rest = notes ++ start :: body ++ s.rest by
          simpa using ahead)
      have isHead : behind.takeWhile Token.isComment = notes := by
        rw [split, List.takeWhile_append_of_pos areComments,
          List.takeWhile_cons_of_neg (by simp [isCode]), List.append_nil]
      rw [isHead]
      exact ⟨start, body, isStart, split, rfl, read⟩

theorem Ends.readMembers_eq {r s : Reader} (ends : Ends r s) (nested : Bool)
    (pending : Option Token) : readMembers nested pending r = .closed pending s := by
  obtain ⟨rest, idx⟩ := r
  rcases ends with ⟨atEnd, rfl⟩ | ⟨stop, isEnd, order, place⟩
  · obtain rfl : rest = [] := atEnd
    rfl
  · obtain ⟨later, next⟩ := s
    obtain rfl : rest = stop :: later := order
    obtain rfl : next = idx + 1 := place
    exact membersFrom_end _ _ _ _ _ _ isEnd

theorem leaves_skipped {r s t : Reader} (leaves : r.Leaves s)
    (skipped : Reading.skipBlock r = .ok () t) : t = s := by
  rcases leaves with ends | ⟨-, endless⟩
  · exact (EStateM.Result.ok.inj (skipped.symm.trans ends)).2
  · cases skipped.symm.trans (endless 0)

/-- Passing over an object whose block ends where reading the object did. -/
theorem Takes.without_object {pending : Option Token} {r s : Reader} {round : Round}
    (takes : Takes true pending r round s) (isObject : round.token.kind = .component)
    (close : ObjectsClose r) {left : Option Token}
    (read : (readMembers false left r).error = none) :
    ∃ earlier : List String, readMembers false left r =
      (readMembers false (round.leavesWithout left) s).after (earlier.map comment) := by
  obtain ⟨order, -, -, does⟩ := takes
  obtain ⟨token, place, behind, use⟩ := round
  obtain ⟨rest, idx⟩ := r
  dsimp only at order does isObject
  subst order
  obtain ⟨-, inner, object, -⟩ | ⟨absurd, -⟩ := does.of_component isObject
  swap
  · cases absurd
  obtain ⟨start, body, isStart, split, opened, object⟩ := object_block object
  have closes := close token _ _ (Reader.passes_cons _ _ _) isObject opened (by rw [object])
  rw [object] at closes
  -- The name is passed, then the comments behind it are read, then the block is passed.
  have passed : Takes false left ⟨token :: (behind ++ s.rest), idx⟩ ⟨token, idx, [], .pass⟩
      ⟨behind ++ s.rest, idx + 1⟩ :=
    ⟨rfl, rfl, rfl, .idle (by rw [isObject]; rfl)⟩
  have areComments : ∀ note ∈ behind.takeWhile Token.isComment, note.isComment = true :=
    List.all_eq_true.mp List.all_takeWhile
  obtain ⟨earlier, behindNotes⟩ :=
    readMembers_comments false (start :: (body ++ s.rest)) _ areComments left (idx + 1)
  have ahead : behind.takeWhile Token.isComment ++ start :: (body ++ s.rest) =
      behind ++ s.rest := by
    conv_rhs => rw [split]
    simp
  rw [ahead] at behindNotes
  have onward := passed.readMembers_eq.trans behindNotes
  rw [onward, Body.after_error] at read
  obtain ⟨t, skipped, behindBlock⟩ := readMembers_block isStart read
  rw [leaves_skipped closes skipped] at behindBlock
  refine ⟨earlier, ?_⟩
  rw [onward, behindBlock, Round.leavesWithout, if_pos isObject]

/-- Elements that a body declares for its own type. -/
def isOwn : Element → Bool
  | attr _ | property _ | function _ | signal _ | enumeration _ => true
  | comment _ | component _ _ | inlineType _ _ => false

def Round.own (round : Round) : List Element :=
  match round.use with
  | .member _ made => made.toList.filter isOwn
  | _ => []

def Round.given (round : Round) : Option Token :=
  match round.use with
  | .member doc _ => doc
  | _ => none

theorem isOwn_documentedBy (note : Option Token) (element : Element) :
    (element.documentedBy note).isOwn = element.isOwn := by
  cases note <;> cases element <;> rfl

theorem filter_isOwn_comments (texts : List String) : (texts.map comment).filter isOwn = [] := by
  simp [isOwn]

theorem filter_isOwn_ofPending (pending : Option Token) :
    (ofPending pending).filter isOwn = [] := by
  cases pending <;> rfl

theorem filter_isOwn_adds (round : Round) (pending : Option Token) :
    (round.adds pending).filter isOwn = round.own := by
  rw [Round.adds, Round.own]
  cases round.use with
  | comment => exact filter_isOwn_ofPending pending
  | pass => rfl
  | member doc made => rfl

theorem filter_isOwn_assembled (rounds : List Round) : ∀ pending,
    (assembled pending rounds).filter isOwn = rounds.flatMap Round.own := by
  induction rounds with
  | nil => exact filter_isOwn_ofPending
  | cons round later ih =>
      intro pending
      rw [assembled, List.filter_append, filter_isOwn_adds, ih, List.flatMap_cons]

theorem documentedBy_documentedBy (note : Option Token) (element : Element) :
    (element.documentedBy note).documentedBy note = element.documentedBy note := by
  cases note with
  | none => rfl
  | some note => exact documented_documented note note element

/-- Reading something that a comment documents, with another comment in place of none. -/
theorem read_redocumented {α : Type} {read : Option Token → Reading α}
    {document : Option Token → α → α} (law : ∀ note, read note = document note <$> read none)
    (again : ∀ note value, document note (document note value) = document note value)
    {given left : Option Token} (kept : given = none ∨ left = given) {r s : Reader} {value : α}
    (done : read given r = .ok value s) : read left r = .ok (document left value) s := by
  rcases kept with rfl | rfl
  · rw [law left]
    exact Reading.map_eq_ok_iff.mpr ⟨value, done, rfl⟩
  · have same : document left value = value := by
      rw [law left] at done
      obtain ⟨bare, -, rfl⟩ := Reading.map_eq_ok_iff.mp done
      exact again left bare
    rw [same]
    exact done

theorem filter_isOwn_redocumented (note : Option Token) (made : Option Element) :
    (made.map (documentedBy note)).toList.filter isOwn =
      (made.toList.filter isOwn).map (documentedBy note) := by
  cases made with
  | none => rfl
  | some element =>
      simp only [Option.map_some, Option.toList_some, List.filter_cons, isOwn_documentedBy]
      split <;> rfl

/-- A round other than an object, when the objects of the body are passed over: it declares the
same, but a member that had no comment is given the one that is left. -/
theorem Takes.without {given left : Option Token} {r s : Reader} {round : Round}
    (takes : Takes true given r round s) (noObject : round.token.kind ≠ .component)
    (kept : given = none ∨ left = given) :
    ∃ other, Takes false left r other s ∧ other.own = round.own.map (documentedBy left) ∧
      other.leaves left = round.leaves left := by
  obtain ⟨order, isPlace, onward, does⟩ := takes
  obtain ⟨token, place, behind, use⟩ := round
  dsimp only at does noObject
  have again (use' : Use) (does' : Does false left token ⟨behind ++ s.rest, r.idx + 1⟩ use' s) :
      Takes false left r ⟨token, place, behind, use'⟩ s :=
    ⟨order, isPlace, onward, does'⟩
  generalize behind ++ s.rest = ahead at does again
  cases does with
  | comment isComment => exact ⟨_, again _ (.comment isComment), rfl, rfl⟩
  | @declaration made s kindIs read =>
      have twice (note : Option Token) (made : Option Element) :
          (made.map (documentedBy note)).map (documentedBy note) =
            made.map (documentedBy note) := by
        cases made <;> simp [documentedBy_documentedBy]
      have read' := read_redocumented (readMember_eq token) twice kept read
      exact ⟨_, again _ (.declaration kindIs read'), filter_isOwn_redocumented left made, rfl⟩
  | @attr found s kindIs read =>
      have read' := read_redocumented (readAttribute_eq token) documentedBy_documentedBy kept read
      exact ⟨_, again _ (.attr kindIs read'), filter_isOwn_redocumented left (some found), rfl⟩
  | object kindIs _ _ => exact absurd kindIs noObject
  | @inlineType info inner t s kindIs read body =>
      have read' := read_redocumented (readInlineInfo_eq token) (fun _ _ => rfl) kept read
      exact ⟨_, again _ (.inlineType kindIs read' body), rfl, rfl⟩
  | block kindIs skipped => exact ⟨_, again _ (.block kindIs skipped), rfl, rfl⟩
  | idle idle =>
      have idle' : isIdle false token.kind = true := by
        revert idle noObject
        cases token.kind <;> simp [isIdle]
      exact ⟨_, again _ (.idle idle'), rfl, rfl⟩

/-- The comment that is pending behind the rounds, if objects are passed over. -/
def leftBehind (left : Option Token) (rounds : List Round) : Option Token :=
  rounds.foldl (fun left round => round.leavesWithout left) left

/-- An element that a body declares for its own type, as it is read with the objects of the body;
the comment that it is given then, and the one that is left before it if objects are passed over. -/
structure OwnMember where
  element : Element
  given : Option Token
  left : Option Token

/-- The members that the rounds declare for the type itself. -/
def ownMembers (left : Option Token) : List Round → List OwnMember
  | [] => []
  | round :: later =>
      round.own.map (fun element => ⟨element, round.given, left⟩) ++
        ownMembers (round.leavesWithout left) later

theorem ownMembers_element (rounds : List Round) : ∀ left,
    (ownMembers left rounds).map OwnMember.element = rounds.flatMap Round.own := by
  induction rounds with
  | nil => intro left; rfl
  | cons round later ih =>
      intro left
      rw [ownMembers, List.map_append, ih, List.flatMap_cons, List.map_map]
      congr 1
      exact List.map_id _

/-- A comment that is pending with the objects is so without them. -/
theorem Takes.keeps {given left : Option Token} {r s : Reader} {round : Round}
    (takes : Takes true given r round s) (kept : given = none ∨ left = given) :
    round.leaves given = none ∨ round.leavesWithout left = round.leaves given := by
  by_cases isObject : round.token.kind = .component
  · obtain ⟨-, inner, -, useIs⟩ | ⟨absurd, -⟩ := takes.does.of_component isObject
    · left
      rw [Round.leaves, useIs]
    · cases absurd
  · rw [Round.leavesWithout, if_neg isObject, Round.leaves, Round.leaves]
    cases round.use with
    | comment => exact Or.inr rfl
    | pass => exact kept
    | member doc made => exact Or.inl rfl

/-- One round with the objects, seen without them. -/
theorem Takes.step_without {given left : Option Token} {r s : Reader} {round : Round}
    (takes : Takes true given r round s) (close : ObjectsClose r)
    (kept : given = none ∨ left = given) (read : (readMembers false left r).error = none) :
    (readMembers false (round.leavesWithout left) s).error = none ∧
      (readMembers false left r).elements.filter isOwn = round.own.map (documentedBy left) ++
        (readMembers false (round.leavesWithout left) s).elements.filter isOwn := by
  -- An object adds nothing but comments; any other round can be made without the objects too.
  by_cases isObject : round.token.kind = .component
  · obtain ⟨earlier, onward⟩ := takes.without_object isObject close read
    obtain ⟨-, inner, -, useIs⟩ | ⟨absurd, -⟩ := takes.does.of_component isObject
    swap
    · cases absurd
    have noOwn : round.own = [] := by rw [Round.own, useIs]; rfl
    rw [onward, Body.after_error] at read
    refine ⟨read, ?_⟩
    rw [onward, Body.after_elements, List.filter_append, filter_isOwn_comments, noOwn, List.map_nil]
  · obtain ⟨other, takes, own, leaves⟩ := takes.without isObject kept
    have plain : round.leavesWithout left = round.leaves left := if_neg isObject
    rw [takes.readMembers_eq, leaves, ← plain, Body.after_error] at read
    refine ⟨read, ?_⟩
    rw [takes.readMembers_eq, Body.after_elements, List.filter_append, filter_isOwn_adds, own,
      leaves, ← plain]

/-- The body without its objects, read along the rounds with them. -/
theorem Run.without_objects {rounds : List Round} : ∀ {given left : Option Token} {r t : Reader},
    Run true given r rounds t → ObjectsClose r → (given = none ∨ left = given) →
    (readMembers false left r).error = none →
    (readMembers false (leftBehind left rounds) t).error = none ∧
      (readMembers false left r).elements.filter isOwn =
        (ownMembers left rounds).map (fun member => member.element.documentedBy member.left) ++
          (readMembers false (leftBehind left rounds) t).elements.filter isOwn := by
  induction rounds with
  | nil =>
      intro given left r t run close kept read
      obtain rfl : t = r := run
      exact ⟨read, rfl⟩
  | cons round later ih =>
      intro given left r t run close kept read
      obtain ⟨s, takes, run⟩ := run
      obtain ⟨readOn, own⟩ := takes.step_without close kept read
      obtain ⟨readToEnd, onward⟩ :=
        ih run (close.of_reaches takes.reaches) (takes.keeps kept) readOn
      refine ⟨readToEnd, ?_⟩
      rw [own, onward, ownMembers, List.map_append, List.map_map, List.append_assoc]
      rfl

/-- A member that is documented with the objects has the same comment without them. -/
theorem Run.ownMembers_left {rounds : List Round} : ∀ {given left : Option Token} {r t : Reader},
    Run true given r rounds t → (given = none ∨ left = given) →
    ∀ member ∈ ownMembers left rounds, member.given = none ∨ member.left = member.given := by
  induction rounds with
  | nil => intro given left r t run kept member isMember; simp [ownMembers] at isMember
  | cons round later ih =>
      intro given left r t run kept member isMember
      obtain ⟨s, takes, run⟩ := run
      rcases List.mem_append.mp isMember with here | later
      · obtain ⟨element, -, rfl⟩ := List.mem_map.mp here
        dsimp only
        rw [Round.given]
        split
        next doc made isMember =>
          rw [takes.doc_eq isMember]
          exact kept
        next => exact Or.inl rfl
      · exact ih run (takes.keeps kept) member later

end Element

namespace Document

open Element

/-- The elements of the type itself, with and without the objects of the body. Where each object
ends with its block, both ways to read give the same elements in the same order. Only the comments
can differ: without the objects an element has the comment that is left before it, which is the one
that it is given with them, if it is given one. -/
theorem read_withoutObjects (doc : Document) (tokens : List Token)
    (withObjects : (doc.read true tokens).error = none)
    (without : (doc.read false tokens).error = none)
    (close : ObjectsClose (Reader.ofTokens tokens)) :
    ∃ s rounds t, openBlock (doc.bodyStart tokens) = .ok () s ∧ Run true none s rounds t ∧
      let known := doc.elements.filter isOwn
      let members := ownMembers none rounds
      let own := (doc.read true tokens).document.elements.filter isOwn
      let ownWithout := (doc.read false tokens).document.elements.filter isOwn
      own = known ++ members.map OwnMember.element ∧
        ownWithout =
          known ++ members.map (fun member => member.element.documentedBy member.left) ∧
        (∀ member ∈ members, member.given = none ∨ member.left = member.given) ∧
        (own = ownWithout ↔
          ∀ member ∈ members, member.element.documentedBy member.left = member.element) := by
  obtain ⟨s, opened, onward, read, elements⟩ := read_members withObjects
  obtain ⟨other, alsoOpened, -, readWithout, elementsWithout⟩ := read_members without
  obtain rfl : other = s := (EStateM.Result.ok.inj (alsoOpened.symm.trans opened)).2
  obtain ⟨rounds, t, run, ends, assembly⟩ := readMembers_run read
  obtain ⟨-, along⟩ :=
    run.without_objects (close.of_reaches onward) (Or.inl rfl) readWithout
  have own : (doc.read true tokens).document.elements.filter isOwn =
      doc.elements.filter isOwn ++ (ownMembers none rounds).map OwnMember.element := by
    rw [elements, List.filter_append, assembly, filter_isOwn_assembled, ownMembers_element]
  have ownWithout : (doc.read false tokens).document.elements.filter isOwn =
      doc.elements.filter isOwn ++ (ownMembers none rounds).map
        (fun member => member.element.documentedBy member.left) := by
    rw [elementsWithout, List.filter_append, along, ends.readMembers_eq, Body.closed]
    change _ ++ (_ ++ (ofPending _).filter isOwn) = _
    rw [filter_isOwn_ofPending, List.append_nil]
  refine ⟨other, rounds, t, opened, run, own, ownWithout, run.ownMembers_left (Or.inl rfl), ?_⟩
  rw [own, ownWithout, List.append_cancel_left_eq, List.map_inj_left]
  exact forall₂_congr fun member _ => eq_comm

/-- A comment before an object, and behind the object two members without one. -/
theorem read_withoutObjects_label :
    let text := "Item \x7b\n    /// The frame around the label\n    Rectangle \x7b\n" ++
      "        id: frame\n    \x7d\n    property int size\n    function f() \x7b \x7d\n\x7d\n"
    let tokens := (Token.tokenize text).tokens
    let doc : Document := { info := { name := "A" } }
    let size : Property := { name := "size", type := "int" }
    (doc.read true tokens).error = none ∧ (doc.read false tokens).error = none ∧
      ClearBlocks tokens ∧ ∃ s rounds t, openBlock (doc.bodyStart tokens) = .ok () s ∧
        Run true none s rounds t ∧
        let members := ownMembers none rounds
        (members.map OwnMember.element).filterMap property? = [size] ∧
          (members.map fun member => member.element.documentedBy member.left).filterMap property? =
            [{ size with doc := { text := "/// The frame around the label" } }] ∧
          ∀ member ∈ members, member.given = none ∨ member.left = member.given := by
  intro text tokens doc size
  have withObjects : (doc.read true tokens).error = none := by decide +kernel
  have without : (doc.read false tokens).error = none := by decide +kernel
  have clear : ClearBlocks tokens := by decide +kernel
  obtain ⟨s, rounds, t, opened, run, own, ownWithout, kept, -⟩ :=
    doc.read_withoutObjects tokens withObjects without clear.objectsClose
  refine ⟨withObjects, without, clear, s, rounds, t, opened, run, ?_, ?_, kept⟩
  · exact (congrArg (List.filterMap property?) own).symm.trans (by decide +kernel)
  · exact (congrArg (List.filterMap property?) ownWithout).symm.trans (by decide +kernel)

/-- Passing over the objects gives a property the comment of the object before it; and it gives the
type a property that is part of an object otherwise, if the object ends behind its block. -/
theorem read_withoutObjects_differs :
    let framed := (Token.tokenize ("Item \x7b\n    /// The frame around the label\n" ++
      "    Rectangle \x7b\n        id: frame\n    \x7d\n    property int size\n\x7d\n")).tokens
    let unvalued := (Token.tokenize ("Item \x7b\n    Rectangle \x7b\n        width:\n" ++
      "    \x7d\n    property int size\n\x7d\n")).tokens
    let doc : Document := { info := { name := "A" } }
    let size : Property := { name := "size", type := "int" }
    let properties (nested : Bool) (tokens : List Token) : Option (List Property) :=
      if (doc.read nested tokens).error = none then
        some ((doc.read nested tokens).document.elements.filterMap property?)
      else none
    properties true framed = some [size] ∧
      properties false framed =
        some [{ size with doc := { text := "/// The frame around the label" } }] ∧
      properties true unvalued = some [] ∧ properties false unvalued = some [size] := by
  decide +kernel

end Document

namespace Element

mutual

/-- The element is an object, or it is a type that has one inside of it. -/
def holdsObject : Element → Bool
  | component _ _ => true
  | inlineType _ elements => anyHoldsObject elements
  | _ => false

def anyHoldsObject : List Element → Bool
  | [] => false
  | element :: later => holdsObject element || anyHoldsObject later

end

theorem anyHoldsObject_iff (elements : List Element) :
    anyHoldsObject elements = true ↔ ∃ element ∈ elements, element.holdsObject = true := by
  induction elements with
  | nil => simp [anyHoldsObject]
  | cons element later ih => simp [anyHoldsObject, ih]

theorem holdsObject_of_isOwn {element : Element} (isOwn : element.isOwn = true) :
    element.holdsObject = false := by
  cases element with
  | comment _ | component _ _ | inlineType _ _ => cases isOwn
  | attr _ | property _ | function _ | signal _ | enumeration _ => rfl

/-- Where an element of a body that starts at `r` can come from. -/
inductive Origin (nested : Bool) (r : Reader) : Element → Prop
  | own {element : Element} (isOwn : element.isOwn = true) : Origin nested r element
  | comment {text : String} : Origin nested r (.comment text)
  | object {name : Token} {s : Reader} {info : ComponentInfo} {inner : List Element}
      (passes : r.Passes name s) (kindIs : name.kind = .component) (isNested : nested = true) :
      Origin nested r (component info inner)
  | inlineType {name : Token} {note : Option Token} {s t u : Reader} {info : TypeInfo}
      {inner : List Element} (passes : r.Passes name s) (kindIs : name.kind = .inlineComponent)
      (read : readInlineInfo name note s = .ok info t)
      (body : readMembers true none t = ⟨inner, none, u⟩) :
      Origin nested r (inlineType info inner)

theorem of_bind_ok {α β : Type} (good : β → Prop) {first : Reading α} {next : α → Reading β}
    (each : ∀ value r s result, next value r = .ok result s → good result) {r s : Reader}
    {result : β} (done : (first >>= next) r = .ok result s) : good result := by
  obtain ⟨value, t, -, behind⟩ := Reading.bind_eq_ok_iff.mp done
  exact each value t s result behind

/-- What is read behind a keyword is a property, a function, a signal or an enumeration. -/
theorem of_readMember (good : Element → Prop) (properties : ∀ p, good (property p))
    (functions : ∀ f, good (function f)) (signals : ∀ s, good (signal s))
    (enumerations : ∀ e, good (enumeration e)) {keyword : Token} {note : Option Token}
    {r s : Reader} {made : Option Element} (read : readMember keyword note r = .ok made s) :
    ∀ element ∈ made, good element := by
  have shown {name : String} {element : Element} (isGood : good element) {r s : Reader}
      {made : Option Element}
      (done : (pure (unlessPrivate name element) : Reading (Option Element)) r = .ok made s) :
      ∀ element ∈ made, good element := by
    cases done
    rw [unlessPrivate]
    split <;> simp [isGood]
  rw [readMember] at read
  dsimp only at read
  split at read
  · exact of_bind_ok _ (fun p _ _ _ done => shown (properties _) done) read
  · split at read
    · exact of_bind_ok _ (fun f _ _ _ done => shown (functions _) done) read
    · split at read
      · exact of_bind_ok _ (fun s _ _ _ done => shown (signals _) done) read
      · split at read
        · exact of_bind_ok _ (fun e _ _ _ done => shown (enumerations _) done) read
        · cases read

theorem isOwn_of_readMember {keyword : Token} {note : Option Token} {r s : Reader}
    {made : Option Element} (read : readMember keyword note r = .ok made s) :
    ∀ element ∈ made, element.isOwn = true :=
  of_readMember (isOwn ·) (fun _ => rfl) (fun _ => rfl) (fun _ => rfl) (fun _ => rfl) read

theorem isOwn_of_readAttribute {name : Token} {note : Option Token} {r s : Reader}
    {element : Element} (read : readAttribute name note r = .ok element s) :
    element.isOwn = true := by
  rw [readAttribute] at read
  refine of_bind_ok (isOwn ·) (fun _ _ _ _ read => ?_) read
  refine of_bind_ok (isOwn ·) (fun first _ _ _ read => ?_) read
  dsimp only at read
  split at read
  · refine of_bind_ok (isOwn ·) (fun _ _ _ _ read => ?_) read
    cases read
    rfl
  · cases read
    rfl

/-- A round makes an element of one of these kinds. -/
theorem Takes.origin {nested : Bool} {pending : Option Token} {r s : Reader} {round : Round}
    (takes : Takes nested pending r round s) {doc : Option Token} {element : Element}
    (made : round.use = .member doc (some element)) : Origin nested r element := by
  obtain ⟨token, place, behind, use⟩ := round
  obtain ⟨rest, idx⟩ := r
  obtain ⟨order, -, -, does⟩ := takes
  dsimp only at order does made
  subst order made
  have passes := Reader.passes_cons token (behind ++ s.rest) idx
  generalize behind ++ s.rest = ahead at does passes
  cases does with
  | declaration kindIs read => exact .own (isOwn_of_readMember read element rfl)
  | attr kindIs read => exact .own (isOwn_of_readAttribute read)
  | object kindIs isNested read => exact .object passes kindIs isNested
  | inlineType kindIs read body => exact .inlineType passes kindIs read body

theorem Origin.of_reaches {nested : Bool} {r s : Reader} {element : Element}
    (origin : Origin nested s element) (reaches : r.Reaches s) : Origin nested r element := by
  cases origin with
  | own isOwn => exact .own isOwn
  | comment => exact .comment
  | object passes kindIs isNested => exact .object (reaches.passes passes) kindIs isNested
  | inlineType passes kindIs read body =>
      exact .inlineType (reaches.passes passes) kindIs read body

theorem origin_of_mem_pending (nested : Bool) (r : Reader) {pending : Option Token}
    {element : Element} (member : element ∈ ofPending pending) : Origin nested r element := by
  cases pending with
  | none => cases member
  | some note =>
      obtain rfl := List.mem_singleton.mp member
      exact .comment

theorem Run.origin {nested : Bool} {rounds : List Round} {element : Element} :
    ∀ {pending : Option Token} {r t : Reader}, Run nested pending r rounds t →
      element ∈ assembled pending rounds → Origin nested r element := by
  induction rounds with
  | nil => intro pending r t run member; exact origin_of_mem_pending nested r member
  | cons round later ih =>
      intro pending r t run member
      obtain ⟨s, takes, run⟩ := run
      rcases List.mem_append.mp member with here | later
      · rw [Round.adds] at here
        split at here
        next => exact origin_of_mem_pending nested r here
        next => cases here
        next doc made isMade =>
          obtain rfl : made = some element := Option.mem_toList.mp here
          exact takes.origin isMade
      · exact (ih run later).of_reaches takes.reaches

theorem readMembers_origin {nested : Bool} {pending : Option Token} {r : Reader}
    (read : (readMembers nested pending r).error = none) {element : Element}
    (member : element ∈ (readMembers nested pending r).elements) : Origin nested r element := by
  obtain ⟨rounds, t, run, -, assembly⟩ := readMembers_run read
  rw [assembly] at member
  exact run.origin member

/-- An object at any depth of a body has its name ahead of the body. -/
theorem readMembers_holdsObject {nested : Bool} {pending : Option Token} {r : Reader}
    (read : (readMembers nested pending r).error = none)
    (holds : anyHoldsObject (readMembers nested pending r).elements = true) :
    ∃ name s, r.Passes name s ∧ name.kind = .component := by
  induction size : r.rest.length using Nat.strongRecOn generalizing nested pending r with
  | ind size ih =>
      subst size
      obtain ⟨element, member, holds⟩ := (anyHoldsObject_iff _).mp holds
      cases readMembers_origin read member with
      | own isOwn => cases holds.symm.trans (holdsObject_of_isOwn isOwn)
      | comment => cases holds
      | object passes kindIs _ => exact ⟨_, _, passes, kindIs⟩
      | @inlineType name note s t u info inner passes kindIs read body =>
          -- The body of the inline type starts behind its name, so fewer tokens are ahead of it.
          have toInner := ((readInlineInfo_meets name note s).of_ok read).1
          have inside : anyHoldsObject (readMembers true none t).elements = true := by
            rw [body]
            exact holds
          have passed := passes.length_lt
          have shorter := toInner.length_le
          obtain ⟨object, v, isAhead, isObject⟩ :=
            ih t.rest.length (by omega) (by rw [body]) inside rfl
          exact ⟨object, v, (passes.reaches.trans toInner).passes isAhead, isObject⟩

end Element

namespace Document

open Element

/-- What a file holds of objects if it is read without them: none among its own elements, but all
that the bodies of its inline types hold, which are read as if nothing were passed over. -/
theorem read_inlineObjects (doc : Document) (tokens : List Token)
    (read : (doc.read false tokens).error = none) :
    ∃ own, (doc.read false tokens).document.elements = doc.elements ++ own ∧
      (∀ info inner, component info inner ∉ own) ∧
      (∀ info inner, inlineType info inner ∈ own → ∃ name note s t u,
        (Reader.ofTokens tokens).Passes name s ∧ name.kind = .inlineComponent ∧
          readInlineInfo name note s = .ok info t ∧ readMembers true none t = ⟨inner, none, u⟩) ∧
      (anyHoldsObject own = true ↔
        ∃ info inner, inlineType info inner ∈ own ∧ anyHoldsObject inner = true) ∧
      (anyHoldsObject own = true → ∃ name s object t, (Reader.ofTokens tokens).Passes name s ∧
        name.kind = .inlineComponent ∧ s.Passes object t ∧ object.kind = .component) := by
  obtain ⟨s, -, onward, read, elements⟩ := read_members read
  have origin {element : Element} (member : element ∈ (readMembers false none s).elements) :
      Origin false (Reader.ofTokens tokens) element :=
    (readMembers_origin read member).of_reaches onward
  have fromInline : anyHoldsObject (readMembers false none s).elements = true →
      ∃ info inner, inlineType info inner ∈ (readMembers false none s).elements ∧
        anyHoldsObject inner = true := by
    intro holds
    obtain ⟨element, member, holds⟩ := (anyHoldsObject_iff _).mp holds
    cases origin member with
    | own isOwn => cases holds.symm.trans (holdsObject_of_isOwn isOwn)
    | comment => cases holds
    | object _ _ isNested => cases isNested
    | inlineType _ _ _ _ => exact ⟨_, _, member, holds⟩
  have described (info : TypeInfo) (inner : List Element)
      (member : inlineType info inner ∈ (readMembers false none s).elements) :
      ∃ name note s t u, (Reader.ofTokens tokens).Passes name s ∧
        name.kind = .inlineComponent ∧ readInlineInfo name note s = .ok info t ∧
          readMembers true none t = ⟨inner, none, u⟩ := by
    cases origin member with
    | own isOwn => cases isOwn
    | inlineType passes kindIs read body => exact ⟨_, _, _, _, _, passes, kindIs, read, body⟩
  refine ⟨_, elements, ?_, described, ⟨fromInline, ?_⟩, ?_⟩
  · intro info inner member
    cases origin member with
    | own isOwn => cases isOwn
    | object _ _ isNested => cases isNested
  · rintro ⟨info, inner, member, holds⟩
    exact (anyHoldsObject_iff _).mpr ⟨_, member, holds⟩
  · intro holds
    obtain ⟨info, inner, member, holds⟩ := fromInline holds
    obtain ⟨name, note, s, t, u, passes, kindIs, read, body⟩ := described info inner member
    obtain ⟨object, v, isAhead, isObject⟩ :=
      @readMembers_holdsObject true none t (by rw [body]) (by rw [body]; exact holds)
    have toInner := ((readInlineInfo_meets name note s).of_ok read).1
    exact ⟨name, s, object, v, passes, kindIs, toInner.passes isAhead, isObject⟩

/-- An inline type with an object inside, and an object beside it. -/
theorem read_inlineObjects_badge :
    let text := "Item \x7b\n    Row \x7b\n        id: row\n    \x7d\n" ++
      "    component Badge: Item \x7b\n        Text \x7b\n            id: label\n" ++
      "        \x7d\n    \x7d\n\x7d\n"
    let tokens := (Token.tokenize text).tokens
    let doc : Document := { info := { name := "A" } }
    let found := (doc.read false tokens).document.elements
    (doc.read false tokens).error = none ∧ (∀ info inner, component info inner ∉ found) ∧
      ∃ name s object t, (Reader.ofTokens tokens).Passes name s ∧ name.kind = .inlineComponent ∧
        s.Passes object t ∧ object.kind = .component := by
  intro text tokens doc found
  have read : (doc.read false tokens).error = none := by decide +kernel
  obtain ⟨own, isFound, noObject, -, -, ahead⟩ := doc.read_inlineObjects tokens read
  obtain rfl : found = own := isFound
  exact ⟨read, noObject, ahead (by decide +kernel)⟩

/-- The object inside of an inline type is there without the objects of the file, and is shown. -/
theorem read_inlineObjects_shown :
    let text := "Item \x7b\n    component Badge: Item \x7b\n        Text \x7b\n" ++
      "            id: label\n        \x7d\n    \x7d\n\x7d\n"
    let empty : Document := { info := { name := "A" } }
    let parsed := empty.read false (Token.tokenize text).tokens
    parsed.error = none ∧ anyHoldsObject parsed.document.elements = true ∧
      parsed.document.print.outcome.toOption =
        some ("class A : public QtQuick.Item \x7b\npublic:\n" ++
          "class Badge : public QtQuick.Item \x7b\nText label;\n\x7d;\n\x7d;") := by
  decide +kernel

end Document

end QmlDoc
