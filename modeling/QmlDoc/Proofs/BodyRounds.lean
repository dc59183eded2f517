import QmlDoc.Proofs.BlockEnds
import QmlDoc.Proofs.ReadBody

set_option autoImplicit false

namespace QmlDoc

namespace Element

namespace Body

@[simp] theorem after_error (earlier : List Element) (body : Body) :
    (body.after earlier).error = body.error := rfl

@[simp] theorem after_elements (earlier : List Element) (body : Body) :
    (body.after earlier).elements = earlier ++ body.elements := rfl

theorem after_after (first second : List Element) (body : Body) :
    (body.after second).after first = body.after (first ++ second) := by
  simp only [after, List.append_assoc]

end Body

/-- The bodies in a member may be read by any reader that does the same ahead. -/
theorem turnAt_congr {inside other : Reading (List Element)} (nested : Bool)
    (pending : Option Token) (token : Token) {r : Reader}
    (same : ∀ s, r.Reaches s → inside s = other s) :
    turnAt inside nested pending token r = turnAt other nested pending token r := by
  have bodies (element : List Element → Turn) (s : Reader) (onward : r.Reaches s) :
      (inside >>= fun inner => pure (element inner)) s =
        (other >>= fun inner => pure (element inner)) s := by
    rw [Reading.run_bind, Reading.run_bind, same s onward]
  rw [turnAt, turnAt]
  cases token.kind <;> dsimp only
  case component =>
      split
      · apply Reading.bind_congr_at
        exact fun _ s opened => bodies _ s ((openBlock_meets r).of_ok opened).1
      · rfl
  case inlineComponent =>
      apply Reading.bind_congr_at
      exact fun info s found => bodies _ s ((readInlineInfo_meets token pending r).of_ok found).1

theorem turnAt_reaches {n : Nat} {nested : Bool} {pending : Option Token} {token : Token}
    {rest : List Token} {idx : Nat} {s : Reader} {turn : Turn} (enough : rest.length < n)
    (read : turnAt (elementsFrom n true none) nested pending token ⟨rest, idx + 1⟩ = .ok turn s) :
    Reader.Reaches ⟨rest, idx + 1⟩ s := by
  have closes (t : Reader) (bound : t.rest.length ≤ rest.length) :=
    elementsFrom_meets n true none t (Nat.lt_of_le_of_lt bound enough)
  exact ((turnAt_meets nested pending token rest idx closes).of_ok read).2.1

/-- A bound on the rounds that exceeds the number of tokens ahead does not matter. -/
theorem membersFrom_succ (n : Nat) : ∀ (nested : Bool) (pending : Option Token) (r : Reader),
    r.rest.length < n → membersFrom (n + 1) nested pending r = membersFrom n nested pending r := by
  induction n with
  | zero => intro nested pending r enough; omega
  | succ n ih =>
      intro nested pending r enough
      obtain ⟨rest, idx⟩ := r
      cases rest with
      | nil => rfl
      | cons token rest =>
          rw [List.length_cons] at enough
          have goOn (nested : Bool) (pending : Option Token) (s : Reader)
              (onward : Reader.Reaches ⟨rest, idx + 1⟩ s) :
              membersFrom (n + 1) nested pending s = membersFrom n nested pending s := by
            have bound : s.rest.length ≤ rest.length := onward.length_le
            exact ih nested pending s (by omega)
          have turns : turnAt (elementsFrom (n + 1) true none) nested pending token
              ⟨rest, idx + 1⟩ =
                turnAt (elementsFrom n true none) nested pending token ⟨rest, idx + 1⟩ := by
            refine turnAt_congr nested pending token fun s onward => ?_
            rw [elementsFrom_eq, elementsFrom_eq, goOn true none s onward]
          conv_lhs => rw [membersFrom_cons, turns]
          conv_rhs => rw [membersFrom_cons]
          cases read : turnAt (elementsFrom n true none) nested pending token ⟨rest, idx + 1⟩ with
          | error error s => rfl
          | ok turn s =>
              cases turn with
              | ends elements => rfl
              | goesOn elements next =>
                  have onward := turnAt_reaches (Nat.lt_of_succ_lt_succ enough) read
                  dsimp only
                  rw [goOn nested next s onward]

/-- Reading the members of a body, with enough rounds for the tokens ahead. -/
def readMembers (nested : Bool) (pending : Option Token) (r : Reader) : Body :=
  membersFrom (r.rest.length + 1) nested pending r

theorem membersFrom_eq_readMembers {n : Nat} {r : Reader} (enough : r.rest.length < n)
    (nested : Bool) (pending : Option Token) :
    membersFrom n nested pending r = readMembers nested pending r := by
  obtain ⟨more, rfl⟩ := Nat.exists_eq_add_of_le enough
  induction more with
  | zero => rfl
  | succ more ih =>
      rw [← Nat.add_assoc, membersFrom_succ _ _ _ _ (by omega)]
      exact ih (by omega)

/-- The element with a comment as its documentation, in place of any that it has. -/
def documented (note : Token) : Element → Element
  | comment text => comment text
  | attr a => attr { a with doc := note.value }
  | property p => property { p with doc := Doc.ofToken note }
  | function f => function { f with doc := Doc.ofToken note }
  | signal s => signal { s with doc := Doc.ofToken note }
  | enumeration e => enumeration { e with doc := Doc.ofToken note }
  | component info elements => component { info with comment := some note.value } elements
  | inlineType info elements => inlineType { info with headerComments := [note.value] } elements

def documentedBy (note : Option Token) (element : Element) : Element :=
  match note with
  | none => element
  | some note => element.documented note

@[simp] theorem documented_documented (first second : Token) (element : Element) :
    (element.documented first).documented second = element.documented second := by
  cases element <;> rfl

/-- The comment before a member changes its documentation and nothing else. -/
theorem readMember_eq (keyword : Token) (note : Option Token) :
    readMember keyword note = (Option.map (documentedBy note)) <$> readMember keyword none := by
  have shown (name : String) (element : Element) :
      (unlessPrivate name element).map (documentedBy note) =
        unlessPrivate name (element.documentedBy note) := by
    rw [unlessPrivate, unlessPrivate]
    split <;> rfl
  rw [readMember, readMember]
  dsimp only
  split
  · cases note <;> simp only [map_bind, map_pure, shown] <;> rfl
  · split
    · cases note <;> simp only [map_bind, map_pure, shown] <;> rfl
    · split
      · cases note <;> simp only [map_bind, map_pure, shown] <;> rfl
      · split
        · cases note <;> simp only [map_bind, map_pure, shown] <;> rfl
        · rfl

theorem readAttribute_eq (name : Token) (note : Option Token) :
    readAttribute name note = documentedBy note <$> readAttribute name none := by
  rw [readAttribute, readAttribute]
  simp only [map_bind, apply_ite (documentedBy note <$> ·), pure_bind, map_pure]
  cases note <;> rfl

/-- The type with a comment, if there is one, in its header. -/
theorem readInlineInfo_eq (name : Token) (note : Option Token) :
    readInlineInfo name note =
      (fun info => { info with headerComments := (note.map Token.value).toList }) <$>
        readInlineInfo name none := by
  rw [readInlineInfo, readInlineInfo]
  simp only [map_bind, map_pure]

/-- What a round does with the token that it takes. -/
inductive Use
  /-- The comment is pending from now on. -/
  | comment
  /-- The token is passed, with the block if it opens one. -/
  | pass
  /-- A member is read and given the comment `doc`. A private member is not made an element. -/
  | member (doc : Option Token) (made : Option Element)

/-- One round of reading a body: the token that it takes, how many tokens lie before that one, the
tokens that it reads behind it, and what it does. -/
structure Round where
  token : Token
  place : Nat
  behind : List Token
  use : Use

/-- What can be done with a token, from the reader `r` behind it to the reader behind all that is
read. -/
inductive Does (nested : Bool) (pending : Option Token) (token : Token) (r : Reader) :
    Use → Reader → Prop
  | comment (isComment : token.isComment = true) : Does nested pending token r .comment r
  | declaration {made : Option Element} {s : Reader} (kindIs : token.kind = .keyword)
      (read : readMember token pending r = .ok made s) :
      Does nested pending token r (.member pending made) s
  | attr {found : Element} {s : Reader} (kindIs : token.kind = .attributeName)
      (read : readAttribute token pending r = .ok found s) :
      Does nested pending token r (.member pending (some found)) s
  | object {inner : List Element} {s : Reader} (kindIs : token.kind = .component)
      (isNested : nested = true) (read : readBody true r = ⟨inner, none, s⟩) :
      Does nested pending token r (.member pending (some
        (component { name := token.value, comment := pending.map Token.value } inner))) s
  | inlineType {info : TypeInfo} {inner : List Element} {t s : Reader}
      (kindIs : token.kind = .inlineComponent)
      (read : readInlineInfo token pending r = .ok info t)
      (body : readMembers true none t = ⟨inner, none, s⟩) :
      Does nested pending token r (.member pending (some (inlineType info inner))) s
  | block {s : Reader} (kindIs : token.kind = .blockStart)
      (skipped : Reading.skipBlock r = .ok () s) : Does nested pending token r .pass s
  | idle (isIdle : isIdle nested token.kind = true) : Does nested pending token r .pass r

/-- The round can be made at `r` and leads to `s`. -/
structure Takes (nested : Bool) (pending : Option Token) (r : Reader) (round : Round)
    (s : Reader) : Prop where
  order : r.rest = round.token :: (round.behind ++ s.rest)
  place : round.place = r.idx
  onward : s.idx = r.idx + 1 + round.behind.length
  does : Does nested pending round.token ⟨round.behind ++ s.rest, r.idx + 1⟩ round.use s

namespace Round

def leaves (round : Round) (pending : Option Token) : Option Token :=
  match round.use with
  | .comment => some round.token
  | .pass => pending
  | .member _ _ => none

/-- The elements that are known with the round. A comment that nothing took is one of them as soon
as another comment is pending in its place. -/
def adds (round : Round) (pending : Option Token) : List Element :=
  match round.use with
  | .comment => ofPending pending
  | .pass => []
  | .member _ made => made.toList

end Round

/-- Rounds one after the other, from `r` to `t`. -/
def Run (nested : Bool) : Option Token → Reader → List Round → Reader → Prop
  | _, r, [], t => t = r
  | pending, r, round :: later, t =>
      ∃ s, Takes nested pending r round s ∧ Run nested (round.leaves pending) s later t

/-- The body ends at `r`: with its closing brace, behind which `s` stands, or with the tokens. -/
def Ends (r s : Reader) : Prop :=
  r.rest = [] ∧ s = r ∨
    ∃ stop, stop.kind = .blockEnd ∧ r.rest = stop :: s.rest ∧ s.idx = r.idx + 1

def assembled : Option Token → List Round → List Element
  | pending, [] => ofPending pending
  | pending, round :: later => round.adds pending ++ assembled (round.leaves pending) later

theorem Takes.reaches {nested : Bool} {pending : Option Token} {r s : Reader} {round : Round}
    (takes : Takes nested pending r round s) : r.Reaches s := by
  refine ⟨round.token :: round.behind, takes.order, ?_⟩
  rw [takes.onward, List.length_cons]
  omega

theorem Takes.length_lt {nested : Bool} {pending : Option Token} {r s : Reader} {round : Round}
    (takes : Takes nested pending r round s) : s.rest.length < r.rest.length := by
  rw [takes.order, List.length_cons, List.length_append]
  omega

/-- A round at the first token ahead, by what it does. -/
theorem takes_of_does {nested : Bool} {pending : Option Token} {token : Token}
    {rest : List Token} {idx : Nat} {use : Use} {s : Reader}
    (does : Does nested pending token ⟨rest, idx + 1⟩ use s)
    (onward : Reader.Reaches ⟨rest, idx + 1⟩ s) :
    ∃ round, Takes nested pending ⟨token :: rest, idx⟩ round s := by
  obtain ⟨behind, order, place⟩ := onward
  refine ⟨⟨token, idx, behind, use⟩, congrArg _ order, rfl, place, ?_⟩
  rw [← order]
  exact does

theorem readBody_of_open {r s : Reader} (opened : openBlock r = .ok () s) (nested : Bool) :
    readBody nested r = readMembers nested none s := by
  rw [readBody, opened]
  rfl

theorem readMembers_reaches {nested : Bool} {pending : Option Token} {r : Reader}
    (read : (readMembers nested pending r).error = none) :
    r.Reaches (readMembers nested pending r).reader := by
  have meets := membersFrom_meets (r.rest.length + 1) nested pending r (Nat.lt_succ_self _)
  have noError : (membersFrom (r.rest.length + 1) nested pending r).error = none := read
  rw [Body.Meets, noError] at meets
  exact meets.1

theorem Body.eq_of_error {body : Body} (read : body.error = none) :
    body = ⟨body.elements, none, body.reader⟩ := by
  rw [← read]

theorem Does.of_turnAt {n : Nat} {nested : Bool} {pending : Option Token} {token : Token}
    {r s : Reader} {turn : Turn} (goesOn : token.kind ≠ .blockEnd) (enough : r.rest.length < n)
    (read : turnAt (elementsFrom n true none) nested pending token r = .ok turn s) :
    ∃ use, Does nested pending token r use s := by
  -- The rounds that are left are enough for a body that starts ahead.
  have inside {t u : Reader} {inner : List Element} (onward : r.Reaches t)
      (read : elementsFrom n true none t = .ok inner u) :
      readMembers true none t = ⟨inner, none, u⟩ := by
    rw [← membersFrom_eq_readMembers (Nat.lt_of_le_of_lt onward.length_le enough)]
    exact elementsFrom_eq_ok_iff.mp read
  rw [turnAt] at read
  cases kindIs : token.kind <;> simp only [kindIs] at read
  case comment | inlineComment =>
      obtain ⟨-, rfl⟩ := Reading.pure_eq_ok_iff.mp read
      exact ⟨_, .comment (by rw [Token.isComment, kindIs]; rfl)⟩
  case keyword =>
      obtain ⟨made, t, member, done⟩ := Reading.bind_eq_ok_iff.mp read
      obtain ⟨-, rfl⟩ := Reading.pure_eq_ok_iff.mp done
      exact ⟨_, .declaration kindIs member⟩
  case attributeName =>
      obtain ⟨found, t, member, done⟩ := Reading.bind_eq_ok_iff.mp read
      obtain ⟨-, rfl⟩ := Reading.pure_eq_ok_iff.mp done
      exact ⟨_, .attr kindIs member⟩
  case component =>
      split at read
      next isNested =>
          obtain ⟨_, t, opened, behind⟩ := Reading.bind_eq_ok_iff.mp read
          obtain ⟨inner, u, elements, done⟩ := Reading.bind_eq_ok_iff.mp behind
          obtain ⟨-, rfl⟩ := Reading.pure_eq_ok_iff.mp done
          have body := inside ((openBlock_meets r).of_ok opened).1 elements
          exact ⟨_, .object kindIs isNested ((readBody_of_open opened true).trans body)⟩
      next isFlat =>
          obtain ⟨-, rfl⟩ := Reading.pure_eq_ok_iff.mp read
          exact ⟨_, .idle (by rw [kindIs]; simpa [isIdle] using isFlat)⟩
  case inlineComponent =>
      obtain ⟨info, t, found, behind⟩ := Reading.bind_eq_ok_iff.mp read
      obtain ⟨inner, u, elements, done⟩ := Reading.bind_eq_ok_iff.mp behind
      obtain ⟨-, rfl⟩ := Reading.pure_eq_ok_iff.mp done
      have onward := ((readInlineInfo_meets token pending r).of_ok found).1
      exact ⟨_, .inlineType kindIs found (inside onward elements)⟩
  case blockStart =>
      obtain ⟨_, t, skipped, done⟩ := Reading.bind_eq_ok_iff.mp read
      obtain ⟨-, rfl⟩ := Reading.pure_eq_ok_iff.mp done
      exact ⟨_, .block kindIs skipped⟩
  case blockEnd => exact absurd kindIs goesOn
  all_goals
    obtain ⟨-, rfl⟩ := Reading.pure_eq_ok_iff.mp read
    exact ⟨_, .idle (by rw [kindIs]; rfl)⟩

theorem Does.turnAt_eq {n : Nat} {nested : Bool} {pending : Option Token} {token : Token}
    {r s : Reader} {use : Use} (does : Does nested pending token r use s)
    (enough : r.rest.length < n) (place : Nat) (behind : List Token) :
    turnAt (elementsFrom n true none) nested pending token r =
      .ok (.goesOn (Round.adds ⟨token, place, behind, use⟩ pending)
        (Round.leaves ⟨token, place, behind, use⟩ pending)) s := by
  have inside {t u : Reader} {inner : List Element} (onward : r.Reaches t)
      (read : readMembers true none t = ⟨inner, none, u⟩) :
      elementsFrom n true none t = .ok inner u := by
    rw [← membersFrom_eq_readMembers (Nat.lt_of_le_of_lt onward.length_le enough)] at read
    exact elementsFrom_eq_ok_iff.mpr read
  cases does with
  | comment isComment => exact turnAt_comment isComment
  | declaration kindIs read => exact turnAt_keyword kindIs read
  | attr kindIs read => exact turnAt_attribute kindIs read
  | object kindIs isNested read =>
      subst isNested
      cases opened : openBlock r with
      | error error t => simp [readBody, opened, Body.failed] at read
      | ok _ t =>
          have onward := ((openBlock_meets r).of_ok opened).1
          rw [readBody_of_open opened] at read
          exact turnAt_object kindIs opened (inside onward read)
  | inlineType kindIs read body =>
      have onward := ((readInlineInfo_meets token pending r).of_ok read).1
      exact turnAt_inlineType kindIs read (inside onward body)
  | block kindIs skipped => exact turnAt_block kindIs skipped
  | idle isIdle => exact turnAt_idle isIdle

/-- A body that can be read ends, or one more round can be made. -/
theorem ends_or_takes {nested : Bool} {pending : Option Token} {r : Reader}
    (read : (readMembers nested pending r).error = none) :
    (∃ s, Ends r s ∧ readMembers nested pending r = .closed pending s) ∨
      ∃ round s, Takes nested pending r round s := by
  obtain ⟨rest, idx⟩ := r
  cases rest with
  | nil => exact Or.inl ⟨⟨[], idx⟩, Or.inl ⟨rfl, rfl⟩, rfl⟩
  | cons token rest =>
      by_cases isEnd : token.kind = .blockEnd
      · refine Or.inl ⟨⟨rest, idx + 1⟩, Or.inr ⟨token, isEnd, rfl, rfl⟩, ?_⟩
        exact membersFrom_end _ _ _ _ _ _ isEnd
      · cases outcome : turnAt (elementsFrom (rest.length + 1) true none) nested pending token
            ⟨rest, idx + 1⟩ with
        | error error s =>
            rw [readMembers, List.length_cons, membersFrom_of_error outcome] at read
            cases read
        | ok turn s =>
            have enough := Nat.lt_succ_self rest.length
            obtain ⟨use, does⟩ := Does.of_turnAt isEnd enough outcome
            have onward := turnAt_reaches enough outcome
            obtain ⟨round, takes⟩ := takes_of_does does onward
            exact Or.inr ⟨round, s, takes⟩

/-- What a round does to the body that is read. -/
theorem Takes.readMembers_eq {nested : Bool} {pending : Option Token} {r s : Reader}
    {round : Round} (takes : Takes nested pending r round s) :
    readMembers nested pending r =
      (readMembers nested (round.leaves pending) s).after (round.adds pending) := by
  have shorter := takes.length_lt
  obtain ⟨order, -, -, does⟩ := takes
  obtain ⟨token, place, behind, use⟩ := round
  obtain ⟨rest, idx⟩ := r
  dsimp only at order does shorter
  subst order
  rw [List.length_cons] at shorter
  have read := does.turnAt_eq (Nat.lt_succ_self (behind ++ s.rest).length) place behind
  rw [readMembers, List.length_cons, membersFrom_of_goesOn read]
  exact congrArg _ (membersFrom_eq_readMembers shorter _ _)

/-- In a body that can be read, the next token is used, unless it ends the body. -/
theorem exists_does {nested : Bool} {pending : Option Token} {token : Token} {rest : List Token}
    {idx : Nat} (goesOn : token.kind ≠ .blockEnd)
    (read : (readMembers nested pending ⟨token :: rest, idx⟩).error = none) :
    ∃ behind use s, Does nested pending token ⟨rest, idx + 1⟩ use s ∧
      readMembers nested pending ⟨token :: rest, idx⟩ =
        (readMembers nested (Round.leaves ⟨token, idx, behind, use⟩ pending) s).after
          (Round.adds ⟨token, idx, behind, use⟩ pending) := by
  rcases ends_or_takes read with ⟨s, ⟨atEnd, -⟩ | ⟨stop, isEnd, order, -⟩, -⟩ | ⟨round, s, takes⟩
  · cases atEnd
  · obtain ⟨rfl, -⟩ := List.cons.inj order
    exact absurd isEnd goesOn
  · have body := takes.readMembers_eq
    obtain ⟨order, rfl, -, does⟩ := takes
    obtain ⟨first, place, behind, use⟩ := round
    obtain ⟨rfl, rfl⟩ := List.cons.inj order
    exact ⟨behind, use, s, does, body⟩

/-- A body that can be read is a run of rounds up to its end. -/
theorem readMembers_run {nested : Bool} {pending : Option Token} {r : Reader}
    (read : (readMembers nested pending r).error = none) :
    ∃ rounds t, Run nested pending r rounds t ∧ Ends t (readMembers nested pending r).reader ∧
      (readMembers nested pending r).elements = assembled pending rounds := by
  induction size : r.rest.length using Nat.strongRecOn generalizing pending r with
  | ind size ih =>
      subst size
      rcases ends_or_takes read with ⟨s, ends, closed⟩ | ⟨round, s, takes⟩
      · rw [closed]
        exact ⟨[], r, rfl, ends, rfl⟩
      · rw [takes.readMembers_eq] at read ⊢
        obtain ⟨later, t, run, ends, elements⟩ := ih _ takes.length_lt read rfl
        refine ⟨round :: later, t, ⟨s, takes, run⟩, ends, ?_⟩
        rw [Body.after_elements, elements]
        rfl

end Element

end QmlDoc
