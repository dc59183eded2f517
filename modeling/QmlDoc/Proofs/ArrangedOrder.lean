import Mathlib.Data.List.Forall2
import QmlDoc.Proofs.InlineComments
import QmlDoc.Proofs.Words

set_option autoImplicit false

namespace QmlDoc

/-- `line` is `shifted` behind `n` spaces and tabs. -/
def Text.TakesIndent (n : Nat) (line shifted : List Char) : Prop :=
  ∃ indent, indent.length = n ∧ (∀ c ∈ indent, isIndent c = true) ∧ line = indent ++ shifted

/-- `shifted` is `line` without `n` spaces and tabs in front, or `line` itself if it does not
start with as many. -/
def Text.OutdentsTo (n : Nat) (line shifted : List Char) : Prop :=
  TakesIndent n line shifted ∨ (∀ other, ¬TakesIndent n line other) ∧ shifted = line

def Text.outdentLine (n : Nat) (line : List Char) : List Char :=
  if n ≤ (line.takeWhile isIndent).length then line.drop n else line

theorem Text.takesIndent_iff (n : Nat) (line shifted : List Char) :
    TakesIndent n line shifted ↔
      n ≤ (line.takeWhile isIndent).length ∧ shifted = line.drop n := by
  constructor
  · rintro ⟨indent, rfl, isIndented, rfl⟩
    rw [List.takeWhile_append_of_pos isIndented, List.length_append, List.drop_left]
    exact ⟨by omega, rfl⟩
  · rintro ⟨enough, rfl⟩
    have isFront : line.take n = (line.takeWhile isIndent).take n := by
      conv_lhs => rw [← List.takeWhile_append_dropWhile (p := isIndent) (l := line)]
      rw [List.take_append_of_le_length enough]
    refine ⟨line.take n, ?_, ?_, (List.take_append_drop n line).symm⟩
    · rw [isFront, List.length_take]
      omega
    · intro c member
      rw [isFront] at member
      exact List.all_eq_true.mp List.all_takeWhile c (List.mem_of_mem_take member)

theorem Text.outdentsTo_outdentLine (n : Nat) (line : List Char) :
    OutdentsTo n line (outdentLine n line) := by
  rw [outdentLine]
  split
  · rename_i enough
    exact Or.inl ((takesIndent_iff n line _).mpr ⟨enough, rfl⟩)
  · rename_i tooFew
    refine Or.inr ⟨fun other takes => ?_, rfl⟩
    exact tooFew ((takesIndent_iff n line other).mp takes).1

theorem Text.outdentLine_subset (n : Nat) (line : List Char) : outdentLine n line ⊆ line := by
  rw [outdentLine]
  split
  · exact List.drop_subset n line
  · exact List.Subset.refl line

namespace Token

theorem splitOn_outdentLines (n : Nat) (text : List Char) :
    (outdentLines n text).splitOn '\n' =
      (text.splitOn '\n').map (Text.outdentLine n) := by
  apply List.splitOn_intercalate
  · intro piece member
    obtain ⟨line, isLine, rfl⟩ := List.mem_map.mp member
    have absent := Text.not_mem_of_mem_splitOn '\n' text line isLine
    exact fun present => absent (Text.outdentLine_subset n line present)
  · intro empty
    exact List.splitOn_ne_nil '\n' text (List.map_eq_nil_iff.mp empty)

theorem outdentLines_zero (text : List Char) : outdentLines 0 text = text := by
  simp only [outdentLines, Nat.zero_le, if_true, List.drop_zero, List.map_id']
  exact List.intercalate_splitOn '\n'

/-- What becomes of a token, its place among the others apart: a comment is outdented by its
column, and a keyword `property` may turn out to be a name. -/
structure Settles (token final : Token) : Prop where
  idx : final.idx = token.idx
  column : final.column = token.column
  kind : final.kind = token.kind ∨
    token.kind = .keyword ∧ token.value = "property" ∧ final.kind = .element
  lines : token.isComment = true → List.Forall₂ (Text.OutdentsTo token.column)
    (token.value.toList.splitOn '\n') (final.value.toList.splitOn '\n')
  value : token.isComment = false ∨ token.column = 0 → final.value = token.value

theorem settles_outdent (token : Token) (isComment : token.isComment = true) :
    token.Settles token.outdent := by
  refine ⟨rfl, rfl, Or.inl rfl, fun _ => ?_, ?_⟩
  · rw [outdent, String.toList_ofList, splitOn_outdentLines, List.forall₂_map_right_iff,
      List.forall₂_same]
    exact fun line _ => Text.outdentsTo_outdentLine token.column line
  · rintro (isCode | first)
    · rw [isComment] at isCode
      cases isCode
    · rw [outdent, first, outdentLines_zero, String.ofList_toList]

theorem settles_self (token : Token) (isCode : token.isComment = false) :
    token.Settles token := by
  refine ⟨rfl, rfl, Or.inl rfl, fun isComment => ?_, fun _ => rfl⟩
  rw [isCode] at isComment
  cases isComment

theorem settles_settled (done : List Token) (token : Token) :
    token.Settles (settled done token) := by
  by_cases named : (token.kind = .keyword && token.value = "property" &&
      awaitsPropertyName done : Bool) = true
  · have isName : ({ token with kind := .element } : Token).isComment = false := rfl
    simp only [settled, named, if_true, isName, Bool.false_eq_true, if_false]
    simp only [Bool.and_eq_true, decide_eq_true_eq] at named
    obtain ⟨⟨isKeyword, isProperty⟩, -⟩ := named
    refine ⟨rfl, rfl, Or.inr ⟨isKeyword, isProperty, rfl⟩, fun isComment => ?_, fun _ => rfl⟩
    rw [Token.isComment, isKeyword] at isComment
    cases isComment
  · simp only [settled, named, Bool.false_eq_true, if_false]
    cases isComment : token.isComment with
    | true => exact settles_outdent token isComment
    | false => exact settles_self token isComment

/-- A keyword beyond a token that does not end the search is one token farther away. -/
theorem anchor?_beyond {token : Token} {further : List Token} {distance : Nat}
    (passed : token.kind.endsSearch = false)
    (found : anchor? (token :: further) = some (.keyword distance)) :
    ∃ nearer, anchor? further = some (.keyword nearer) ∧ distance = nearer + 1 := by
  have step : anchor? (token :: further) = match anchor? further with
      | none => none
      | some (.keyword nearer) => some (.keyword (nearer + 1))
      | some .barrier => some .barrier := by
    rw [anchor?]
    cases next : anchor? further with
    | none => cases kindIs : token.kind <;> simp_all [Kind.endsSearch]
    | some met => cases met <;> cases kindIs : token.kind <;> simp_all [Kind.endsSearch]
  rw [step] at found
  split at found
  · cases found
  · rename_i nearer next
    cases found
    exact ⟨nearer, next, rfl⟩
  · cases found

theorem anchor?_keyword {tokens : List Token} {distance : Nat}
    (found : anchor? tokens = some (.keyword distance)) :
    ∃ crossed keyword further, tokens = crossed ++ keyword :: further ∧
      crossed.length = distance ∧ keyword.kind = .keyword ∧
      ∀ token ∈ crossed, token.kind.endsSearch = false := by
  induction tokens generalizing distance with
  | nil => cases found
  | cons token further ih =>
      by_cases ends : token.kind.endsSearch = true
      · have first : token.kind = .keyword ∧ distance = 0 := by
          rw [anchor?] at found
          cases kindIs : token.kind <;> simp_all [Kind.endsSearch]
        exact ⟨[], token, further, rfl, first.2.symm, first.1, by simp⟩
      · obtain ⟨nearer, next, rfl⟩ := anchor?_beyond (by simpa using ends) found
        obtain ⟨crossed, keyword, beyond, rfl, rfl, isKeyword, free⟩ := ih next
        refine ⟨token :: crossed, keyword, beyond, rfl, rfl, isKeyword, ?_⟩
        simpa [ends] using free

/-- The keyword that is found splits the tokens before the comment. -/
theorem searched_keyword {done : List Token} {comment : Token} {distance : Nat}
    (behind : 1 < done.length)
    (found : anchor? (searched (done ++ [comment]) done.length) = some (.keyword distance)) :
    ∃ front keyword crossed, done = front ++ keyword :: crossed ∧ crossed.length = distance ∧
      crossed.length < 19 ∧ keyword.kind = .keyword ∧
      ∀ token ∈ crossed, token.kind.endsSearch = false := by
  rw [searched_behind done comment behind] at found
  obtain ⟨nearest, keyword, further, order, size, isKeyword, free⟩ := anchor?_keyword found
  have tail : done.drop (done.length - 20 + 1) = further.reverse ++ keyword :: nearest.reverse := by
    rw [← List.reverse_reverse (done.drop _), order]
    simp
  have near : nearest.length < 19 := by
    have searchedSize := congrArg List.length order
    simp only [List.length_reverse, List.length_drop, List.length_append,
      List.length_cons] at searchedSize
    omega
  refine ⟨done.take (done.length - 20 + 1) ++ further.reverse, keyword, nearest.reverse, ?_,
    by simpa using size, by simpa using near, isKeyword, by simpa using free⟩
  rw [List.append_assoc, ← tail, List.take_append_drop]

theorem insertIdx_length (front back : List Token) (token : Token) :
    (front ++ back).insertIdx front.length token = front ++ token :: back := by
  induction front with
  | nil => rfl
  | cons first front ih => simpa using ih

/-- An inline comment that can be placed stays behind the others, or it goes in front of the
nearest keyword, over less than nineteen other tokens. It never goes right behind another
inline comment. -/
theorem liftAt_ok {done lifted : List Token} {comment : Token} (behind : 1 < done.length)
    (lifts : liftAt (done ++ [comment]) done.length = .ok lifted) :
    lifted = done ++ [comment] ∨
      ∃ front keyword crossed, done = front ++ keyword :: crossed ∧ crossed.length < 19 ∧
        keyword.kind = .keyword ∧ (∀ token ∈ crossed, token.kind.endsSearch = false) ∧
        (∀ token, front.getLast? = some token → token.kind ≠ .inlineComment) ∧
        lifted = front ++ comment :: keyword :: crossed := by
  rw [liftAt] at lifts
  cases nearest : anchor? (searched (done ++ [comment]) done.length) with
  | none =>
      rw [nearest] at lifts
      cases lifts
  | some met =>
      rw [nearest] at lifts
      cases met with
      | barrier => exact Or.inl (Except.ok.inj lifts).symm
      | keyword distance =>
          obtain ⟨front, keyword, crossed, whole, rfl, near, isKeyword, free⟩ :=
            searched_keyword behind nearest
          have target : done.length - crossed.length - 1 = front.length := by
            have size := congrArg List.length whole
            simp only [List.length_append, List.length_cons] at size
            omega
          have last : (done ++ [comment])[done.length]? = some comment := by simp
          have erased : (done ++ [comment]).eraseIdx done.length = done := by
            rw [List.eraseIdx_append_of_length_le (Nat.le_refl _)]
            simp
          simp only [target, last] at lifts
          split at lifts
          · exact Or.inl (Except.ok.inj lifts).symm
          · rename_i notFirst
            have before : (done ++ [comment])[front.length - 1]? = front.getLast? := by
              rw [List.getLast?_eq_getElem?, whole, List.append_assoc,
                List.getElem?_append_left (by omega)]
            obtain ⟨previous, isPrevious⟩ : ∃ previous, front.getLast? = some previous := by
              cases empty : front.getLast? with
              | some previous => exact ⟨previous, rfl⟩
              | none => simp [List.getLast?_eq_none_iff.mp empty] at notFirst
            rw [before, isPrevious] at lifts
            simp only [erased] at lifts
            split at lifts
            · exact Or.inl (Except.ok.inj lifts).symm
            · rename_i undocumented
              refine Or.inr ⟨front, keyword, crossed, whole, near, isKeyword, free, ?_, ?_⟩
              · intro token isLast inline
                rw [isPrevious] at isLast
                cases isLast
                simp [inline] at undocumented
              · rw [← Except.ok.inj lifts, whole]
                exact insertIdx_length front _ comment

/-- Comments of either form and the lines of the header: an inline comment goes over none of
them. -/
def Kind.isBarrier : Kind → Bool
  | comment | inlineComment | importLine | pragmaLine => true
  | _ => false

theorem Kind.isBarrier_of_endsSearch (kind : Kind) (passed : kind.endsSearch = false) :
    kind.isBarrier = false ∧ kind ≠ .keyword := by
  cases kind <;> simp_all [endsSearch, isBarrier]

/-- A token of a rearranged list, and how many tokens stood before it in the list that was
rearranged. -/
structure Placed where
  origin : Nat
  token : Token

namespace Placed

/-- Those of the tokens `after` a comment over which it went: they stood before it. -/
def crossed (comment : Placed) (after : List Placed) : List Placed :=
  after.filter fun each => each.origin < comment.origin

/-- The comment went over at most nineteen tokens. The last of them, which follows the comment,
is a keyword, and no other one is. -/
structure Lifted (comment : Placed) (after : List Placed) : Prop where
  near : (comment.crossed after).length ≤ 19
  keyword : ∃ keyword later, after = keyword :: later ∧ keyword.origin < comment.origin ∧
    keyword.token.kind = .keyword ∧ ∀ each ∈ comment.crossed later, each.token.kind ≠ .keyword

end Placed

/-- `placed` holds the tokens in another order. Only inline comments went over other tokens, and
each of these only up to the keyword before which it now stands. -/
structure Rearranged (tokens : List Token) (placed : List Placed) : Prop where
  all : (placed.map Placed.origin).Perm (List.range tokens.length)
  settles : ∀ each ∈ placed, ∃ token, tokens[each.origin]? = some token ∧
    token.Settles each.token
  codeOrder : (placed.filter fun each => each.token.kind ≠ .inlineComment).Pairwise
    fun first second => first.origin < second.origin
  barrierOrder : (placed.filter fun each => each.token.kind.isBarrier).Pairwise
    fun first second => first.origin < second.origin
  lifted : ∀ before comment after, placed = before ++ comment :: after →
    comment.token.kind = .inlineComment → comment.crossed after = [] ∨ comment.Lifted after

theorem rearranged_nil : Rearranged [] [] := by
  refine ⟨by simp, by simp, by simp, by simp, ?_⟩
  intro before comment after isSplit
  simp at isSplit

theorem Rearranged.origin_lt {tokens : List Token} {placed : List Placed}
    (rearranged : Rearranged tokens placed) : ∀ each ∈ placed, each.origin < tokens.length := by
  intro each member
  have isOrigin := rearranged.all.subset (List.mem_map_of_mem member)
  simpa using isOrigin

theorem Placed.crossed_insert (comment newer : Placed) (front back : List Placed)
    (isNewer : comment.origin ≤ newer.origin) :
    comment.crossed (front ++ newer :: back) = comment.crossed (front ++ back) := by
  simp only [crossed, List.filter_append]
  rw [List.filter_cons_of_neg (by simpa using isNewer)]

/-- A comment that was lifted earlier keeps its keyword when a newer token goes in behind that
keyword. -/
theorem Placed.Lifted.insert {comment newer : Placed} {next : Placed} {front back : List Placed}
    (isNewer : comment.origin ≤ newer.origin)
    (lifted : comment.Lifted (next :: (front ++ back))) :
    comment.Lifted (next :: (front ++ newer :: back)) := by
  obtain ⟨near, keyword, later, order, before, isKeyword, free⟩ := lifted
  obtain ⟨rfl, rfl⟩ := List.cons.inj order
  refine ⟨?_, next, _, rfl, before, isKeyword, ?_⟩
  · rwa [← List.cons_append, crossed_insert comment newer (next :: front) back isNewer,
      List.cons_append]
  · rwa [crossed_insert comment newer front back isNewer]

/-- The tokens over which an inline comment behind `front` can go: the keyword of a member and
the tokens behind it. -/
structure Crossable (front back : List Placed) : Prop where
  near : back.length ≤ 19
  keyword : ∃ keyword later, back = keyword :: later ∧ keyword.token.kind = .keyword ∧
    ∀ each ∈ later, each.token.kind.endsSearch = false
  vacant : ∀ each, front.getLast? = some each → each.token.kind ≠ .inlineComment

theorem Crossable.isBarrier {front back : List Placed} (crossable : Crossable front back) :
    ∀ each ∈ back, each.token.kind.isBarrier = false := by
  obtain ⟨keyword, later, rfl, isKeyword, passed⟩ := crossable.keyword
  intro each member
  rcases List.mem_cons.mp member with rfl | member
  · rw [isKeyword]
    rfl
  · exact (Kind.isBarrier_of_endsSearch _ (passed each member)).1

theorem Crossable.lifted {front back : List Placed} (crossable : Crossable front back)
    (comment : Placed) (older : ∀ each ∈ back, each.origin < comment.origin) :
    comment.Lifted back := by
  obtain ⟨near, ⟨keyword, later, rfl, isKeyword, passed⟩, -⟩ := crossable
  have isAll : comment.crossed (keyword :: later) = keyword :: later :=
    List.filter_eq_self.mpr (by simpa using older)
  refine ⟨by rwa [isAll], keyword, later, rfl, older keyword (by simp), isKeyword, ?_⟩
  intro each member
  exact (Kind.isBarrier_of_endsSearch _ (passed each (List.mem_of_mem_filter member))).2

/-- Tokens in their first order stay so when the newest one comes last. -/
theorem pairwise_filter_snoc (keeps : Placed → Bool) (front : List Placed) (newest : Placed)
    (order : (front.filter keeps).Pairwise fun first second => first.origin < second.origin)
    (older : ∀ each ∈ front, each.origin < newest.origin) :
    ((front ++ [newest]).filter keeps).Pairwise
      fun first second => first.origin < second.origin := by
  rw [List.filter_append]
  refine List.pairwise_append.mpr ⟨order, ?_, ?_⟩
  · exact (List.pairwise_singleton _ newest).filter keeps
  · intro first inFront second isNewest
    obtain rfl := List.mem_singleton.mp (List.mem_of_mem_filter isNewest)
    exact older first (List.mem_of_mem_filter inFront)

/-- Where a comment stands when a newer token was put in: it is that token itself, or it stood
in the list before, and the newer token has come between the tokens behind it or not. -/
theorem append_cons_split {front back before after : List Placed} {newer comment : Placed}
    (isSplit : front ++ newer :: back = before ++ comment :: after) :
    (comment = newer ∧ after = back) ∨
      (∃ earlier, front ++ back = earlier ++ comment :: after) ∨
      ∃ between, front = before ++ comment :: between ∧ after = between ++ newer :: back := by
  rcases List.append_eq_append_iff.mp isSplit with ⟨gap, rfl, rest⟩ | ⟨gap, rfl, rest⟩
  · cases gap with
    | nil =>
        obtain ⟨rfl, rfl⟩ := List.cons.inj rest
        exact Or.inl ⟨rfl, rfl⟩
    | cons first gap =>
        obtain ⟨rfl, rfl⟩ := List.cons.inj rest
        exact Or.inr (Or.inl ⟨front ++ gap, (List.append_assoc _ _ _).symm⟩)
  · cases gap with
    | nil =>
        obtain ⟨rfl, rfl⟩ := List.cons.inj rest
        exact Or.inl ⟨rfl, rfl⟩
    | cons first gap =>
        obtain ⟨rfl, rfl⟩ := List.cons.inj rest
        exact Or.inr (Or.inr ⟨gap, rfl, rfl⟩)

theorem Rearranged.insert_settles {tokens : List Token} {front back : List Placed}
    {token final : Token} (rearranged : Rearranged tokens (front ++ back))
    (settles : token.Settles final) : ∀ each ∈ front ++ ⟨tokens.length, final⟩ :: back,
      ∃ source, (tokens ++ [token])[each.origin]? = some source ∧ source.Settles each.token := by
  intro each member
  have earlier (isOld : each ∈ front ++ back) :
      ∃ source, (tokens ++ [token])[each.origin]? = some source ∧ source.Settles each.token := by
    obtain ⟨source, present, becomes⟩ := rearranged.settles each isOld
    refine ⟨source, ?_, becomes⟩
    rw [List.getElem?_append_left (rearranged.origin_lt each isOld), present]
  rcases List.mem_append.mp member with inFront | member
  · exact earlier (by simp [inFront])
  · rcases List.mem_cons.mp member with rfl | inBack
    · exact ⟨token, by simp, settles⟩
    · exact earlier (by simp [inBack])

/-- A newer token does not part an inline comment from the keyword before which it stands. -/
theorem Rearranged.insert_lifted {tokens : List Token} {front back : List Placed} {final : Token}
    (rearranged : Rearranged tokens (front ++ back)) (place : back = [] ∨ Crossable front back)
    {before after : List Placed} {comment : Placed}
    (isSplit : front ++ ⟨tokens.length, final⟩ :: back = before ++ comment :: after)
    (inline : comment.token.kind = .inlineComment) :
    comment.crossed after = [] ∨ comment.Lifted after := by
  have older := rearranged.origin_lt
  rcases append_cons_split isSplit with ⟨rfl, rfl⟩ | ⟨earlier, same⟩ | ⟨between, rfl, rfl⟩
  · rcases place with rfl | crossable
    · exact Or.inl rfl
    · exact Or.inr (crossable.lifted _ fun each member => older each (by simp [member]))
  · exact rearranged.lifted earlier comment after same inline
  · have isNewer : comment.origin ≤ tokens.length := Nat.le_of_lt (older comment (by simp))
    have known := rearranged.lifted before comment (between ++ back) (by simp) inline
    rcases known with none | lifted
    · rw [Placed.crossed_insert comment _ between back isNewer]
      exact Or.inl none
    · cases between with
      | cons next between => exact Or.inr (lifted.insert isNewer)
      | nil =>
          -- Here the newer token would stand between the comment and its keyword.
          rcases place with rfl | crossable
          · obtain ⟨keyword, later, order, -⟩ := lifted.keyword
            cases order
          · exact absurd inline (crossable.vacant comment (by simp))

/-- The next token goes behind all others, or, being an inline comment, over some of them. -/
theorem Rearranged.insert {tokens : List Token} {front back : List Placed} {token final : Token}
    (rearranged : Rearranged tokens (front ++ back)) (settles : token.Settles final)
    (place : back = [] ∨ final.kind = .inlineComment ∧ Crossable front back) :
    Rearranged (tokens ++ [token]) (front ++ ⟨tokens.length, final⟩ :: back) := by
  have olderFront : ∀ each ∈ front, each.origin < tokens.length :=
    fun each member => rearranged.origin_lt each (by simp [member])
  refine ⟨?_, rearranged.insert_settles settles, ?_, ?_, fun before comment after =>
    rearranged.insert_lifted (place.imp_right And.right)⟩
  · have grown := rearranged.all.append_right [tokens.length]
    rw [List.length_append, List.length_singleton, List.range_succ]
    refine List.Perm.trans ?_ grown
    rw [← List.map_singleton (f := Placed.origin) (a := ⟨tokens.length, final⟩), ← List.map_append]
    exact (List.perm_middle.trans (List.perm_append_singleton _ _).symm).map Placed.origin
  · have order := rearranged.codeOrder
    rcases place with rfl | ⟨inline, -⟩
    · rw [List.append_nil] at order
      exact pairwise_filter_snoc _ front ⟨tokens.length, final⟩ order olderFront
    · rw [List.filter_append] at order ⊢
      rwa [List.filter_cons_of_neg (by simp [inline])]
  · have order := rearranged.barrierOrder
    have free : back.filter (fun each => each.token.kind.isBarrier) = [] := by
      rw [List.filter_eq_nil_iff]
      rcases place with rfl | ⟨-, crossable⟩
      · simp
      · intro each member
        simp [crossable.isBarrier each member]
    rw [List.filter_append, free, List.append_nil] at order
    rw [← List.singleton_append, ← List.append_assoc, List.filter_append, free, List.append_nil]
    exact pairwise_filter_snoc _ front ⟨tokens.length, final⟩ order olderFront

theorem arrangeFrom_cons (done : List Token) (token : Token) (ahead : List Token) :
    arrangeFrom done (token :: ahead) =
      if (token.kind = .inlineComment && 1 < done.length : Bool) then
        match liftAt (done ++ [settled done token]) done.length with
        | .ok lifted => arrangeFrom lifted ahead
        | .error error => ⟨done ++ [settled done token] ++ ahead, some error⟩
      else arrangeFrom (done ++ [settled done token]) ahead := rfl

theorem settled_inlineComment (done : List Token) (token : Token)
    (inline : token.kind = .inlineComment) : (settled done token).kind = .inlineComment := by
  rcases (settles_settled done token).kind with same | ⟨isKeyword, -⟩
  · rw [same, inline]
  · rw [inline] at isKeyword
    cases isKeyword

/-- A move of `liftAt` goes over tokens that a comment can go over. -/
theorem crossable_of_liftAt {placed : List Placed} {front crossed : List Token} {keyword : Token}
    (order : placed.map Placed.token = front ++ keyword :: crossed) (near : crossed.length < 19)
    (isKeyword : keyword.kind = .keyword)
    (free : ∀ token ∈ crossed, token.kind.endsSearch = false)
    (vacant : ∀ token, front.getLast? = some token → token.kind ≠ .inlineComment) :
    ∃ before back, placed = before ++ back ∧ before.map Placed.token = front ∧
      back.map Placed.token = keyword :: crossed ∧ Crossable before back := by
  obtain ⟨before, back, rfl, rfl, isBack⟩ := List.map_eq_append_iff.mp order
  refine ⟨before, back, rfl, rfl, isBack, ?_, ?_, ?_⟩
  · have size := congrArg List.length isBack
    rw [List.length_map, List.length_cons] at size
    omega
  · obtain ⟨first, later, rfl, rfl, rfl⟩ := List.map_eq_cons_iff.mp isBack
    exact ⟨first, later, rfl, isKeyword, fun each member => free _ (List.mem_map_of_mem member)⟩
  · intro each isLast
    exact vacant each.token (by rw [List.getLast?_map, isLast]; rfl)

/-- One token more keeps the list in order. -/
theorem arrangeFrom_rearranged_step {tokens ahead : List Token} {placed : List Placed}
    {token : Token} (rearranged : Rearranged tokens placed)
    (succeeds : (arrangeFrom (placed.map Placed.token) (token :: ahead)).error = none) :
    ∃ next, Rearranged (tokens ++ [token]) next ∧
      arrangeFrom (placed.map Placed.token) (token :: ahead) =
        arrangeFrom (next.map Placed.token) ahead := by
  have settles := settles_settled (placed.map Placed.token) token
  have stays : Rearranged (tokens ++ [token])
      (placed ++ [⟨tokens.length, settled (placed.map Placed.token) token⟩]) :=
    Rearranged.insert (by rwa [List.append_nil]) settles (Or.inl rfl)
  rw [arrangeFrom_cons] at succeeds ⊢
  by_cases moves : (token.kind = .inlineComment &&
      1 < (placed.map Placed.token).length : Bool) = true
  · rw [if_pos moves] at succeeds ⊢
    simp only [Bool.and_eq_true, decide_eq_true_eq] at moves
    obtain ⟨inline, behind⟩ := moves
    cases lifts : liftAt (placed.map Placed.token ++ [settled (placed.map Placed.token) token])
        (placed.map Placed.token).length with
    | error error =>
        rw [lifts] at succeeds
        cases succeeds
    | ok lifted =>
        rcases liftAt_ok behind lifts with rfl | ⟨front, keyword, crossed, order, near, isKeyword,
          free, vacant, rfl⟩
        · exact ⟨_, stays, by simp⟩
        · obtain ⟨before, back, rfl, rfl, isBack, crossable⟩ :=
            crossable_of_liftAt order near isKeyword free vacant
          have inlineStill := settled_inlineComment ((before ++ back).map Placed.token) token inline
          refine ⟨_, rearranged.insert settles (Or.inr ⟨inlineStill, crossable⟩), ?_⟩
          simp only [List.map_append, List.map_cons, isBack]
  · rw [if_neg moves]
    exact ⟨_, stays, by simp⟩

/-- What is in order stays so while the tokens ahead are arranged. -/
theorem arrangeFrom_rearranged (ahead : List Token) :
    ∀ (tokens : List Token) (placed : List Placed), Rearranged tokens placed →
      (arrangeFrom (placed.map Placed.token) ahead).error = none →
      ∃ final, final.map Placed.token = (arrangeFrom (placed.map Placed.token) ahead).tokens ∧
        Rearranged (tokens ++ ahead) final := by
  induction ahead with
  | nil =>
      intro tokens placed rearranged _
      exact ⟨placed, rfl, by rwa [List.append_nil]⟩
  | cons token ahead ih =>
      intro tokens placed rearranged succeeds
      obtain ⟨next, grown, step⟩ := arrangeFrom_rearranged_step rearranged succeeds
      rw [step] at succeeds ⊢
      obtain ⟨final, isFinal, whole⟩ := ih _ next grown succeeds
      exact ⟨final, isFinal, by rwa [List.append_assoc] at whole⟩

/-- Tokens that can be arranged are all there afterwards, each as one token at its place in the
text, with the comments outdented once. Tokens other than inline comments keep their order, and
so do the comments and header lines. An inline comment that is moved goes left over at most
nineteen tokens, the last of which is its keyword, and it still stands before that keyword in the
end. -/
theorem arrange_rearranged (tokens : List Token) (succeeds : (arrange tokens).error = none) :
    ∃ placed, placed.map Placed.token = (arrange tokens).tokens ∧ Rearranged tokens placed :=
  arrangeFrom_rearranged tokens [] [] rearranged_nil succeeds

/-- The comment of a property is moved over the name, the type and the keyword. -/
theorem arrange_rearranged_property :
    let text := "Item \x7b\n  property int size ///< in\n                    ///< pixels\n\x7d"
    let tokens := (Scanner.ofText text).scan.tokens
    (arrange tokens).error = none ∧
      (arrange tokens).tokens.map (fun token => (token.kind, token.value)) =
        [(.component, "Item"), (.blockStart, "\x7b"), (.inlineComment, "///< in\n///< pixels"),
          (.keyword, "property"), (.element, "int"), (.element, "size"), (.blockEnd, "\x7d")] ∧
      ∃ placed, placed.map Placed.token = (arrange tokens).tokens ∧ Rearranged tokens placed := by
  intro text tokens
  have succeeds : (arrange tokens).error = none := by decide +kernel
  exact ⟨succeeds, by decide +kernel, arrange_rearranged tokens succeeds⟩

end Token

end QmlDoc
