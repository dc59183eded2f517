import QmlDoc.Document
import QmlDoc.Proofs.BodyRounds

set_option autoImplicit false

namespace QmlDoc

namespace Element

/-- The comment that round `i` takes is given to the member that round `j` reads. Between them
tokens are only passed. -/
structure Documents (rounds : List Round) (i j : Nat) : Prop where
  ordered : i < j
  given : ∃ note member made, rounds[i]? = some note ∧ note.use = .comment ∧
    rounds[j]? = some member ∧ member.use = .member (some note.token) made
  between : ∀ k, i < k → k < j → ∃ round : Round, rounds[k]? = some round ∧ round.use = .pass

/-- Every comment is used once, and `parts` are the elements that the rounds add one by one: a
comment is an element or documents one member, a member is given the comment that documents it. -/
structure UsesComments (rounds : List Round) (parts : List (List Element)) : Prop where
  aligned : parts.length = rounds.length
  pass : ∀ (i : Nat) (round : Round), rounds[i]? = some round → round.use = .pass →
    parts[i]? = some []
  comment : ∀ (i : Nat) (round : Round), rounds[i]? = some round → round.use = .comment →
    parts[i]? = some [comment round.token.value] ∧ (∀ j, ¬Documents rounds i j) ∨
      parts[i]? = some [] ∧ ∃! j, Documents rounds i j
  member : ∀ (j : Nat) (round : Round) doc made, rounds[j]? = some round →
    round.use = .member doc made →
    parts[j]? = some made.toList ∧ ∀ note, doc = some note → ∃! i, Documents rounds i j

def pendingBehind (pending : Option Token) (rounds : List Round) : Option Token :=
  rounds.foldl (fun pending round => round.leaves pending) pending

theorem pendingBehind_take_succ {rounds : List Round} {j : Nat} {round : Round}
    (isRound : rounds[j]? = some round) (pending : Option Token) :
    pendingBehind pending (rounds.take (j + 1)) =
      round.leaves (pendingBehind pending (rounds.take j)) := by
  rw [List.take_add_one, isRound, pendingBehind, List.foldl_append]
  rfl

/-- A comment stays pending while tokens are passed. -/
theorem pendingBehind_of_passes {rounds : List Round} {i : Nat} {note : Round}
    (isRound : rounds[i]? = some note) (isComment : note.use = .comment) (pending : Option Token) :
    ∀ count, (∀ k, i < k → k < i + 1 + count →
      ∃ round, rounds[k]? = some round ∧ round.use = .pass) →
    pendingBehind pending (rounds.take (i + 1 + count)) = some note.token := by
  intro count
  induction count with
  | zero =>
      intro _
      rw [Nat.add_zero, pendingBehind_take_succ isRound, Round.leaves, isComment]
  | succ count ih =>
      intro passes
      obtain ⟨round, atPlace, isPass⟩ := passes (i + 1 + count) (by omega) (by omega)
      rw [← Nat.add_assoc, pendingBehind_take_succ atPlace, Round.leaves, isPass]
      exact ih fun k lower upper => passes k lower (by omega)

/-- A comment that is pending was taken before, and tokens were only passed since. -/
theorem exists_of_pendingBehind {rounds : List Round} {token : Token} : ∀ j, j ≤ rounds.length →
    pendingBehind none (rounds.take j) = some token →
    ∃ i note, i < j ∧ rounds[i]? = some note ∧ note.use = .comment ∧ note.token = token ∧
      ∀ k, i < k → k < j → ∃ round, rounds[k]? = some round ∧ round.use = .pass := by
  intro j
  induction j with
  | zero => intro _ isPending; simp [pendingBehind] at isPending
  | succ j ih =>
      intro within isPending
      have isRound : rounds[j]? = some rounds[j] := List.getElem?_eq_getElem within
      rw [pendingBehind_take_succ isRound, Round.leaves] at isPending
      split at isPending
      next isComment =>
          refine ⟨j, rounds[j], by omega, isRound, isComment, Option.some.inj isPending, ?_⟩
          intro k lower upper
          omega
      next isPass =>
          obtain ⟨i, note, before, atPlace, isComment, tokenIs, passes⟩ :=
            ih (by omega) isPending
          refine ⟨i, note, by omega, atPlace, isComment, tokenIs, fun k lower upper => ?_⟩
          rcases Nat.lt_succ_iff_lt_or_eq.mp upper with inside | rfl
          · exact passes k lower inside
          · exact ⟨_, isRound, isPass⟩
      next => cases isPending

/-- A member is given the comment that is pending. -/
theorem Takes.doc_eq {nested : Bool} {pending : Option Token} {r s : Reader} {round : Round}
    (takes : Takes nested pending r round s) {doc : Option Token} {made : Option Element}
    (isMember : round.use = .member doc made) : doc = pending := by
  have does := takes.does
  rw [isMember] at does
  generalize round.behind ++ s.rest = ahead at does
  cases does <;> rfl

theorem Run.doc_eq {nested : Bool} {rounds : List Round} :
    ∀ {pending : Option Token} {r t : Reader}, Run nested pending r rounds t →
    ∀ {j : Nat} {round : Round} {doc : Option Token} {made : Option Element},
      rounds[j]? = some round → round.use = .member doc made →
      doc = pendingBehind pending (rounds.take j) := by
  induction rounds with
  | nil => intro pending r t run j round doc made isRound; simp at isRound
  | cons first later ih =>
      intro pending r t run j round doc made isRound isMember
      obtain ⟨s, takes, run⟩ := run
      cases j with
      | succ j => exact ih run isRound isMember
      | zero =>
          obtain rfl : first = round := by simpa using isRound
          exact takes.doc_eq isMember

theorem Documents.unique_member {rounds : List Round} {i j k : Nat}
    (first : Documents rounds i j) (second : Documents rounds i k) : j = k := by
  have notBefore {j k : Nat} (first : Documents rounds i j) (second : Documents rounds i k) :
      ¬j < k := by
    intro before
    obtain ⟨note, member, made, -, -, isRound, isMember⟩ := first.given
    obtain ⟨round, isRound', isPass⟩ := second.between j first.ordered before
    rw [isRound] at isRound'
    cases isRound'
    rw [isMember] at isPass
    cases isPass
  have := notBefore first second
  have := notBefore second first
  omega

theorem Documents.unique_comment {rounds : List Round} {i j k : Nat}
    (first : Documents rounds i k) (second : Documents rounds j k) : i = j := by
  have notBefore {i j : Nat} (first : Documents rounds i k) (second : Documents rounds j k) :
      ¬i < j := by
    intro before
    obtain ⟨note, -, -, isRound, isComment, -⟩ := second.given
    obtain ⟨round, isRound', isPass⟩ := first.between j before second.ordered
    rw [isRound] at isRound'
    cases isRound'
    rw [isComment] at isPass
    cases isPass
  have := notBefore first second
  have := notBefore second first
  omega

/-- The next round that does not only pass tokens reads a member. -/
def isTaken : List Round → Bool
  | [] => false
  | round :: later =>
      match round.use with
      | .comment => false
      | .pass => isTaken later
      | .member _ _ => true

/-- The elements that each round stands for: a comment is an element unless a member takes it. -/
def partsOf : List Round → List (List Element)
  | [] => []
  | round :: later =>
      (match round.use with
        | .comment => if isTaken later then [] else [comment round.token.value]
        | .pass => []
        | .member _ made => made.toList) :: partsOf later

theorem assembled_eq (rounds : List Round) : ∀ pending, assembled pending rounds =
    (if isTaken rounds then [] else ofPending pending) ++ (partsOf rounds).flatten := by
  induction rounds with
  | nil => intro pending; simp [assembled, isTaken, partsOf]
  | cons round later ih =>
      intro pending
      rw [assembled, ih, isTaken, partsOf, Round.adds, Round.leaves, List.flatten_cons]
      cases round.use with
      | comment => cases isTaken later <;> simp [ofPending]
      | pass => simp
      | member doc made => cases isTaken later <;> simp [ofPending]

theorem length_partsOf (rounds : List Round) : (partsOf rounds).length = rounds.length := by
  induction rounds with
  | nil => rfl
  | cons round later ih => rw [partsOf, List.length_cons, List.length_cons, ih]

theorem partsOf_getElem? (rounds : List Round) : ∀ {i : Nat} {round : Round},
    rounds[i]? = some round → (partsOf rounds)[i]? = some (match round.use with
      | .comment => if isTaken (rounds.drop (i + 1)) then [] else [comment round.token.value]
      | .pass => []
      | .member _ made => made.toList) := by
  induction rounds with
  | nil => intro i round isRound; simp at isRound
  | cons first later ih =>
      intro i round isRound
      cases i with
      | zero =>
          obtain rfl : first = round := by simpa using isRound
          rfl
      | succ i => exact ih isRound

theorem isTaken_iff (rounds : List Round) : isTaken rounds = true ↔
    ∃ (count : Nat) (round : Round) (doc : Option Token) (made : Option Element),
      rounds[count]? = some round ∧ round.use = .member doc made ∧
        ∀ k < count, ∃ round : Round, rounds[k]? = some round ∧ round.use = .pass := by
  induction rounds with
  | nil => simp [isTaken]
  | cons first later ih =>
      rw [isTaken]
      cases useIs : first.use with
      | member doc made =>
          exact iff_of_true rfl ⟨0, first, doc, made, rfl, useIs, by simp⟩
      | comment =>
          refine iff_of_false (by simp) ?_
          rintro ⟨count, round, doc, made, isRound, isMember, passes⟩
          cases count with
          | zero =>
              obtain rfl : first = round := by simpa using isRound
              rw [useIs] at isMember
              cases isMember
          | succ count =>
              obtain ⟨round, isFirst, isPass⟩ := passes 0 (Nat.succ_pos count)
              obtain rfl : first = round := by simpa using isFirst
              rw [useIs] at isPass
              cases isPass
      | pass =>
          dsimp only
          rw [ih]
          constructor
          · rintro ⟨count, round, doc, made, isRound, isMember, passes⟩
            refine ⟨count + 1, round, doc, made, isRound, isMember, fun k before => ?_⟩
            cases k with
            | zero => exact ⟨first, rfl, useIs⟩
            | succ k => exact passes k (by omega)
          · rintro ⟨count, round, doc, made, isRound, isMember, passes⟩
            cases count with
            | zero =>
                obtain rfl : first = round := by simpa using isRound
                rw [useIs] at isMember
                cases isMember
            | succ count =>
                exact ⟨count, round, doc, made, isRound, isMember,
                  fun k before => passes (k + 1) (by omega)⟩

/-- A comment is taken exactly if it documents a member. -/
theorem Run.isTaken_iff {nested : Bool} {rounds : List Round} {r t : Reader}
    (run : Run nested none r rounds t) {i : Nat} {note : Round} (isRound : rounds[i]? = some note)
    (isComment : note.use = .comment) :
    isTaken (rounds.drop (i + 1)) = true ↔ ∃ j, Documents rounds i j := by
  rw [Element.isTaken_iff]
  constructor
  · rintro ⟨count, round, doc, made, atPlace, isMember, passes⟩
    rw [List.getElem?_drop] at atPlace
    have between : ∀ k, i < k → k < i + 1 + count →
        ∃ round : Round, rounds[k]? = some round ∧ round.use = .pass := by
      intro k lower upper
      have passed := passes (k - (i + 1)) (by omega)
      rwa [List.getElem?_drop, Nat.add_sub_cancel' (by omega)] at passed
    have isDoc := run.doc_eq atPlace isMember
    rw [pendingBehind_of_passes isRound isComment none count between] at isDoc
    rw [isDoc] at isMember
    exact ⟨i + 1 + count, by omega, ⟨note, round, made, isRound, isComment, atPlace, isMember⟩,
      between⟩
  · rintro ⟨j, ordered, ⟨other, member, made, -, -, atPlace, isMember⟩, between⟩
    obtain ⟨count, rfl⟩ := Nat.exists_eq_add_of_le (Nat.succ_le_of_lt ordered)
    refine ⟨count, member, _, made, by rw [List.getElem?_drop]; exact atPlace, isMember, ?_⟩
    intro k before
    rw [List.getElem?_drop]
    exact between (i + 1 + k) (by omega) (by omega)

/-- The rounds of a body use its comments once each. -/
theorem Run.usesComments {nested : Bool} {rounds : List Round} {r t : Reader}
    (run : Run nested none r rounds t) : UsesComments rounds (partsOf rounds) where
  aligned := length_partsOf rounds
  pass i round isRound isPass := by
    rw [partsOf_getElem? rounds isRound, isPass]
  comment i round isRound isComment := by
    rw [partsOf_getElem? rounds isRound, isComment]
    cases taken : isTaken (rounds.drop (i + 1)) with
    | true =>
        obtain ⟨j, documents⟩ := (run.isTaken_iff isRound isComment).mp taken
        exact Or.inr ⟨rfl, j, documents, fun other also => also.unique_member documents⟩
    | false =>
        refine Or.inl ⟨rfl, fun j documents => ?_⟩
        rw [(run.isTaken_iff isRound isComment).mpr ⟨j, documents⟩] at taken
        cases taken
  member j round doc made isRound isMember := by
    rw [partsOf_getElem? rounds isRound, isMember]
    refine ⟨rfl, ?_⟩
    rintro note rfl
    have isPending := (run.doc_eq isRound isMember).symm
    have within : j ≤ rounds.length := by
      have := (List.getElem?_eq_some_iff.mp isRound).1
      omega
    obtain ⟨i, comment, before, atPlace, isComment, rfl, passes⟩ :=
      exists_of_pendingBehind j within isPending
    have documents : Documents rounds i j :=
      ⟨before, ⟨comment, round, made, atPlace, isComment, isRound, isMember⟩, passes⟩
    exact ⟨i, documents, fun other also => also.unique_comment documents⟩

/-- Rounds take tokens from left to right. -/
theorem Run.places {nested : Bool} {rounds : List Round} :
    ∀ {pending : Option Token} {r t : Reader}, Run nested pending r rounds t →
    (∀ round ∈ rounds, r.idx ≤ round.place) ∧
      rounds.Pairwise fun first second => first.place < second.place := by
  induction rounds with
  | nil => intro pending r t run; simp
  | cons first later ih =>
      intro pending r t run
      obtain ⟨s, takes, run⟩ := run
      obtain ⟨behind, ordered⟩ := ih run
      have place := takes.place
      have onward := takes.onward
      refine ⟨?_, List.pairwise_cons.mpr ⟨fun round member => ?_, ordered⟩⟩
      · intro round member
        rcases List.mem_cons.mp member with rfl | member
        · omega
        · have := behind round member
          omega
      · have := behind round member
        omega

end Element

/-- What becomes of the comments when a body is read without an error. The rounds of the body use
each comment once, as an element of its own or as the documentation of the member behind it, and
the elements come in the order of the rounds, behind those that the document had before. -/
theorem Document.readBody_comments (doc : Document) (nested : Bool) (r : Reader)
    (read : (doc.readBody nested r).error = none) :
    ∃ s rounds t parts, Element.openBlock r = .ok () s ∧ Element.Run nested none s rounds t ∧
      Element.Ends t (doc.readBody nested r).reader ∧
      (rounds.Pairwise fun first second => first.place < second.place) ∧
      Element.UsesComments rounds parts ∧
      (doc.readBody nested r).document.elements = doc.elements ++ parts.flatten := by
  rw [readBody] at read ⊢
  dsimp only at read ⊢
  cases opened : Element.openBlock r with
  | error error s =>
      rw [Element.readBody, opened] at read
      cases read
  | ok value s =>
      rw [Element.readBody_of_open opened] at read ⊢
      obtain ⟨rounds, t, run, ends, elements⟩ := Element.readMembers_run read
      refine ⟨s, rounds, t, Element.partsOf rounds, rfl, run, ends, run.places.2,
        run.usesComments, ?_⟩
      rw [elements, Element.assembled_eq]
      simp [Element.ofPending]

/-- A comment behind another one, a comment before an object, one before a private member and one
before the end. -/
theorem Document.readBody_comments_row :
    let text := "Item \x7b\n  // first\n\n  /* size */\n  property int size\n  /// row\n" ++
      "  Row \x7b\n    // inner\n  \x7d\n  /* own */\n  function _f() \x7b\n    // body\n" ++
      "  \x7d\n  // last\n\x7d"
    let r := Reader.past (Token.tokenize text).tokens 1
    let doc : Document := { info := { name := "Sample" }, elements := [.comment "// known"] }
    (doc.readBody true r).error = none ∧ ∃ rounds parts, Element.UsesComments rounds parts ∧
      (doc.readBody true r).document.elements = .comment "// known" :: parts.flatten ∧
      parts.flatten.map Element.isComment = [true, false, false, true] := by
  intro text r doc
  have read : (doc.readBody true r).error = none := by decide +kernel
  obtain ⟨s, rounds, t, parts, -, -, -, -, uses, elements⟩ := doc.readBody_comments true r read
  have shown : true :: parts.flatten.map Element.isComment = [true, true, false, false, true] :=
    (congrArg (List.map Element.isComment) elements).symm.trans (by decide +kernel)
  exact ⟨read, rounds, parts, uses, elements, (List.cons.inj shown).2⟩

end QmlDoc
