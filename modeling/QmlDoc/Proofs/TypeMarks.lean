import Mathlib.Data.List.TakeWhile
import Mathlib.Data.Nat.Find
import QmlDoc.Proofs.LexemeWords
import QmlDoc.Proofs.TypeAnnotations

set_option autoImplicit false

namespace QmlDoc

namespace Text

theorem dropWhile_of_stops {p : Char → Bool} {text : List Char} (stops : text.takeWhile p = []) :
    text.dropWhile p = text :=
  List.dropWhile_eq_self_iff.mpr (List.takeWhile_eq_nil_iff.mp stops)

/-- A run of one kind of characters ends in one place only. -/
theorem run_unique {p : Char → Bool} {run other rest behind : List Char}
    (isRun : ∀ c ∈ run, p c = true) (isOther : ∀ c ∈ other, p c = true)
    (stops : rest.takeWhile p = []) (otherStops : behind.takeWhile p = [])
    (same : run ++ rest = other ++ behind) : run = other ∧ rest = behind := by
  have runs := congrArg (List.takeWhile p) same
  rw [List.takeWhile_append_of_pos isRun, List.takeWhile_append_of_pos isOther, stops, otherStops,
    List.append_nil, List.append_nil] at runs
  rw [runs] at same
  exact ⟨runs, List.append_cancel_left same⟩

section Marks

variable {α : Type} {spell : α → List Char} {text before behind : List Char} {mark : α}

/-- No mark stands anywhere in the text. -/
def Unmarked (spell : α → List Char) (text : List Char) : Prop :=
  ∀ mark place, ¬spell mark <+: text.drop place

/-- The first mark of a text, with what stands before and behind it. No mark starts earlier, and
of those that start in the same place it is the longest. -/
structure FirstMark (spell : α → List Char) (text before : List Char) (mark : α)
    (behind : List Char) : Prop where
  parts : text = before ++ (spell mark ++ behind)
  leftmost : ∀ other place, place < before.length → ¬spell other <+: text.drop place
  longest : ∀ other, spell other <+: text.drop before.length →
    (spell other).length ≤ (spell mark).length

/-- The marks of a text from left to right, each with what stands between it and the one before,
and what stands behind the last one. -/
inductive Marked (spell : α → List Char) : List Char → List (List Char × α) → List Char → Prop
  | none {text : List Char} : Unmarked spell text → Marked spell text [] text
  | some {text before behind last : List Char} {mark : α} {later : List (List Char × α)} :
      FirstMark spell text before mark behind → Marked spell behind later last →
      Marked spell text ((before, mark) :: later) last

theorem Unmarked.front (unmarked : Unmarked spell text) : ∀ mark, ¬spell mark <+: text :=
  fun mark => unmarked mark 0

theorem Unmarked.tail {c : Char} {rest : List Char} (unmarked : Unmarked spell (c :: rest)) :
    Unmarked spell rest :=
  fun mark place => unmarked mark (place + 1)

theorem unmarked_cons {c : Char} {rest : List Char}
    (front : ∀ mark, ¬spell mark <+: c :: rest) (unmarked : Unmarked spell rest) :
    Unmarked spell (c :: rest) := by
  intro mark place
  cases place with
  | zero => exact front mark
  | succ place => exact unmarked mark place

namespace FirstMark

theorem front {c : Char} (first : FirstMark spell text (c :: before) mark behind) :
    ∀ other, ¬spell other <+: text :=
  fun other => first.leftmost other 0 (Nat.succ_pos _)

theorem tail {c : Char} {rest : List Char}
    (first : FirstMark spell (c :: rest) (c :: before) mark behind) :
    FirstMark spell rest before mark behind where
  parts := (List.cons.inj first.parts).2
  leftmost other place early := first.leftmost other (place + 1) (Nat.succ_lt_succ early)
  longest := first.longest

theorem cons {c : Char} {rest : List Char} (front : ∀ mark, ¬spell mark <+: c :: rest)
    (first : FirstMark spell rest before mark behind) :
    FirstMark spell (c :: rest) (c :: before) mark behind where
  parts := congrArg (c :: ·) first.parts
  leftmost other place early := by
    cases place with
    | zero => exact front other
    | succ place => exact first.leftmost other place (Nat.lt_of_succ_lt_succ early)
  longest := first.longest

theorem here (first : FirstMark spell text before mark behind) :
    text.drop before.length = spell mark ++ behind := by
  rw [first.parts, List.drop_left]

/-- Of two first marks neither starts behind the other. -/
theorem length_le {otherBefore otherBehind : List Char} {other : α}
    (first : FirstMark spell text before mark behind)
    (second : FirstMark spell text otherBefore other otherBehind) :
    before.length ≤ otherBefore.length := by
  by_contra early
  apply first.leftmost other otherBefore.length (by omega)
  rw [second.here]
  exact List.prefix_append _ _

theorem unique (injective : ∀ mark other, spell mark = spell other → mark = other)
    {otherBefore otherBehind : List Char} {other : α}
    (first : FirstMark spell text before mark behind)
    (second : FirstMark spell text otherBefore other otherBehind) :
    otherBefore = before ∧ other = mark ∧ otherBehind = behind := by
  have samePlace := Nat.le_antisymm (second.length_le first) (first.length_le second)
  obtain ⟨sameBefore, sameHere⟩ :=
    List.append_inj (second.parts.symm.trans first.parts) samePlace
  have shorter := first.longest other <| by
    rw [← samePlace, second.here]
    exact List.prefix_append _ _
  have longer := second.longest mark <| by
    rw [samePlace, first.here]
    exact List.prefix_append _ _
  obtain ⟨sameText, sameBehind⟩ := List.append_inj sameHere (Nat.le_antisymm shorter longer)
  exact ⟨sameBefore, injective other mark sameText, sameBehind⟩

/-- The first mark does not go on in the text behind it. -/
theorem eq_of_extends (injective : ∀ mark other, spell mark = spell other → mark = other)
    {other : α} {run : List Char} (first : FirstMark spell text [] mark behind)
    (extended : spell other = spell mark ++ run) (fits : run <+: behind) : other = mark := by
  have longer := first.longest other <| by
    rw [first.here, extended]
    exact (List.prefix_append_right_inj _).mpr fits
  have noRun : run = [] := by
    rw [extended, List.length_append] at longer
    exact List.length_eq_zero_iff.mp (by omega)
  apply injective
  rw [extended, noRun, List.append_nil]

theorem not_unmarked (first : FirstMark spell text before mark behind) :
    ¬Unmarked spell text := by
  intro unmarked
  apply unmarked mark before.length
  rw [first.here]
  exact List.prefix_append _ _

end FirstMark

/-- Among the marks in front of a text there is a longest one. -/
theorem exists_longest (some : ∃ mark, spell mark <+: text) :
    ∃ mark behind, FirstMark spell text [] mark behind := by
  classical
  let Fits (length : Nat) : Prop := ∃ mark, spell mark <+: text ∧ (spell mark).length = length
  obtain ⟨mark, isPrefix⟩ := some
  have fits := Nat.findGreatest_spec (P := Fits) isPrefix.length_le ⟨mark, isPrefix, rfl⟩
  obtain ⟨longest, ⟨behind, parts⟩, isLongest⟩ := fits
  refine ⟨longest, behind, parts.symm, fun _ _ early => absurd early (Nat.not_lt_zero _), ?_⟩
  intro other otherPrefix
  rw [isLongest]
  exact Nat.le_findGreatest (P := Fits) otherPrefix.length_le ⟨other, otherPrefix, rfl⟩

theorem unmarked_or_firstMark (spell : α → List Char) (text : List Char) :
    Unmarked spell text ∨ ∃ before mark behind, FirstMark spell text before mark behind := by
  induction text with
  | nil =>
      by_cases front : ∃ mark, spell mark <+: []
      · exact Or.inr ⟨[], exists_longest front⟩
      · refine Or.inl fun mark place isPrefix => front ⟨mark, ?_⟩
        rwa [List.drop_nil] at isPrefix
  | cons c rest ih =>
      by_cases front : ∃ mark, spell mark <+: c :: rest
      · exact Or.inr ⟨[], exists_longest front⟩
      · have none : ∀ mark, ¬spell mark <+: c :: rest := fun mark isPrefix => front ⟨mark, isPrefix⟩
        rcases ih with unmarked | ⟨before, mark, behind, first⟩
        · exact Or.inl (unmarked_cons none unmarked)
        · exact Or.inr ⟨c :: before, mark, behind, first.cons none⟩

/-- Every text can be looked through, as each mark takes some of it. -/
theorem exists_marked (nonempty : ∀ mark, spell mark ≠ []) (text : List Char) :
    ∃ marks last, Marked spell text marks last := by
  induction size : text.length using Nat.strongRecOn generalizing text with
  | ind length ih =>
      rcases unmarked_or_firstMark spell text with unmarked | ⟨before, mark, behind, first⟩
      · exact ⟨[], text, .none unmarked⟩
      · have shorter : behind.length < length := by
          have whole := congrArg List.length first.parts
          have room := List.length_pos_iff.mpr (nonempty mark)
          rw [List.length_append, List.length_append] at whole
          omega
        obtain ⟨later, last, marked⟩ := ih behind.length shorter behind rfl
        exact ⟨(before, mark) :: later, last, .some first marked⟩

theorem Marked.unique (injective : ∀ mark other, spell mark = spell other → mark = other)
    {marks others : List (List Char × α)} {last otherLast : List Char}
    (marked : Marked spell text marks last) (also : Marked spell text others otherLast) :
    others = marks ∧ otherLast = last := by
  induction marked generalizing others with
  | none unmarked =>
      cases also with
      | none => exact ⟨rfl, rfl⟩
      | some first => exact absurd unmarked first.not_unmarked
  | some first _ ih =>
      cases also with
      | none unmarked => exact absurd unmarked first.not_unmarked
      | some second rest =>
          obtain ⟨rfl, rfl, rfl⟩ := first.unique injective second
          obtain ⟨rfl, rfl⟩ := ih rest
          exact ⟨rfl, rfl⟩

end Marks

end Text

namespace Annotation

open Text (FirstMark Unmarked Marked)

theorem not_isTypeChar_of_isBlank {c : Char} (isBlank : Text.isBlank c = true) :
    isTypeChar c = false := by
  have noMark : c ≠ '*' ∧ c ≠ '.' ∧ c ≠ '<' ∧ c ≠ '>' ∧ c ≠ '|' := by
    refine ⟨?_, ?_, ?_, ?_, ?_⟩ <;>
      · rintro rfl
        cases isBlank
  simp [isTypeChar, Text.isWord_of_isBlank isBlank, noMark]

/-- A type as a comment gives it: white space, `type:` and the name of the type. -/
@[ext] structure TypeMark where
  gap : List Char
  type : List Char
  someGap : gap ≠ []
  isGap : ∀ c ∈ gap, Text.isBlank c = true
  someType : type ≠ []
  isType : ∀ c ∈ type, isTypeChar c = true

namespace TypeMark

def text (mark : TypeMark) : List Char :=
  mark.gap ++ ("type:".toList ++ mark.type)

/-- The mark with a name that goes on as far as the text behind it lets it. -/
def extend (mark : TypeMark) (rest : List Char) : TypeMark where
  gap := mark.gap
  type := mark.type ++ rest.takeWhile isTypeChar
  someGap := mark.someGap
  isGap := mark.isGap
  someType := by simp [mark.someType]
  isType c member := by
    rcases List.mem_append.mp member with inMark | behind
    · exact mark.isType c inMark
    · exact List.all_eq_true.mp List.all_takeWhile c behind

theorem text_extend (mark : TypeMark) (rest : List Char) :
    (mark.extend rest).text = mark.text ++ rest.takeWhile isTypeChar := by
  simp only [text, extend, List.append_assoc]

/-- Two marks that start a text and cannot go on there are the same. -/
theorem unique {mark other : TypeMark} {rest behind : List Char}
    (stops : rest.takeWhile isTypeChar = []) (otherStops : behind.takeWhile isTypeChar = [])
    (same : mark.text ++ rest = other.text ++ behind) : mark = other ∧ rest = behind := by
  simp only [text, List.append_assoc] at same
  obtain ⟨sameGap, sameRest⟩ := Text.run_unique mark.isGap other.isGap rfl rfl same
  obtain ⟨sameType, sameBehind⟩ :=
    Text.run_unique mark.isType other.isType stops otherStops (List.append_cancel_left sameRest)
  exact ⟨TypeMark.ext sameGap sameType, sameBehind⟩

end TypeMark

theorem typeAt_text (mark : TypeMark) (rest : List Char) :
    typeAt (mark.text ++ rest) = some ((mark.extend rest).type, rest.dropWhile isTypeChar) := by
  have parted : Text.spanBlank (mark.text ++ rest) =
      (mark.gap, "type:".toList ++ (mark.type ++ rest)) := by
    simp only [Text.spanBlank, TypeMark.text, List.append_assoc]
    rw [List.takeWhile_append_of_pos mark.isGap, List.dropWhile_append_of_pos mark.isGap]
    exact congrArg (·, _) (List.append_nil _)
  have isMarked : "type:".toList.isPrefixOf? ("type:".toList ++ (mark.type ++ rest)) =
      some (mark.type ++ rest) :=
    List.isPrefixOf?_eq_some_iff_append_eq.mpr rfl
  have isRun : (mark.type ++ rest).takeWhile isTypeChar = (mark.extend rest).type :=
    List.takeWhile_append_of_pos mark.isType
  unfold typeAt
  rw [parted]
  dsimp only
  rw [if_neg (by simp [mark.someGap]), isMarked]
  dsimp only
  rw [isRun, if_neg (by simp [(mark.extend rest).someType]),
    List.dropWhile_append_of_pos mark.isType]

theorem typeAt_of_stops (mark : TypeMark) {rest : List Char}
    (stops : rest.takeWhile isTypeChar = []) :
    typeAt (mark.text ++ rest) = some (mark.type, rest) := by
  have sameType : (mark.extend rest).type = mark.type := by
    show mark.type ++ rest.takeWhile isTypeChar = mark.type
    rw [stops, List.append_nil]
  rw [typeAt_text, sameType, Text.dropWhile_of_stops stops]

theorem exists_typeMark {text type behind : List Char}
    (found : typeAt text = some (type, behind)) :
    ∃ mark : TypeMark, mark.type = type ∧ text = mark.text ++ behind := by
  unfold typeAt at found
  dsimp only [Text.spanBlank] at found
  split at found
  · cases found
  next someGap =>
    split at found
    · cases found
    next after isMarked =>
      split at found
      · cases found
      next someType =>
        obtain ⟨rfl, rfl⟩ := Prod.mk.inj (Option.some.inj found)
        let mark : TypeMark := {
          gap := text.takeWhile Text.isBlank
          type := after.takeWhile isTypeChar
          someGap := fun isNil => someGap (List.isEmpty_iff.mpr isNil)
          isGap := List.all_eq_true.mp List.all_takeWhile
          someType := fun isNil => someType (List.isEmpty_iff.mpr isNil)
          isType := List.all_eq_true.mp List.all_takeWhile }
        refine ⟨mark, rfl, ?_⟩
        show text = text.takeWhile Text.isBlank ++
          ("type:".toList ++ after.takeWhile isTypeChar) ++ after.dropWhile isTypeChar
        rw [List.append_assoc, List.append_assoc, List.takeWhile_append_dropWhile,
          List.isPrefixOf?_eq_some_iff_append_eq.mp isMarked, List.takeWhile_append_dropWhile]

def IsSign (sign : Char) : Prop :=
  sign = '@' ∨ sign = '\\'

theorem commandAt_eq_some_iff {name text rest : List Char} :
    commandAt name text = some rest ↔ ∃ sign, IsSign sign ∧ text = sign :: (name ++ rest) := by
  cases text with
  | nil => simp [commandAt]
  | cons c text =>
      rw [commandAt]
      by_cases isSign : IsSign c
      · rw [if_pos (by simpa [IsSign] using isSign), List.isPrefixOf?_eq_some_iff_append_eq]
        constructor
        · rintro rfl
          exact ⟨c, isSign, rfl⟩
        · rintro ⟨sign, -, parts⟩
          exact (List.cons.inj parts).2.symm
      · rw [if_neg (by simpa [IsSign] using isSign)]
        constructor
        · intro found
          cases found
        · rintro ⟨sign, otherSign, parts⟩
          obtain ⟨rfl, -⟩ := List.cons.inj parts
          exact absurd otherSign isSign

/-- The command for a parameter: a sign and `param`, the type, white space and the name of the
parameter. -/
@[ext] structure ParamMark where
  sign : Char
  typing : TypeMark
  space : List Char
  name : List Char
  isSign : IsSign sign
  someSpace : space ≠ []
  isSpace : ∀ c ∈ space, Text.isBlank c = true
  someName : name ≠ []
  isName : ∀ c ∈ name, Text.isWord c = true

namespace ParamMark

def text (mark : ParamMark) : List Char :=
  mark.sign :: ("param".toList ++ (mark.typing.text ++ (mark.space ++ mark.name)))

theorem text_ne_nil (mark : ParamMark) : mark.text ≠ [] :=
  List.cons_ne_nil _ _

def bareText (mark : ParamMark) : List Char :=
  "@param ".toList ++ mark.name

def typed (mark : ParamMark) : String × String :=
  (String.ofList mark.name, String.ofList mark.typing.type)

/-- The mark with a name that goes on as far as the text behind it lets it. -/
def extend (mark : ParamMark) (rest : List Char) : ParamMark where
  sign := mark.sign
  typing := mark.typing
  space := mark.space
  name := mark.name ++ rest.takeWhile Text.isWord
  isSign := mark.isSign
  someSpace := mark.someSpace
  isSpace := mark.isSpace
  someName := by simp [mark.someName]
  isName c member := by
    rcases List.mem_append.mp member with inMark | behind
    · exact mark.isName c inMark
    · exact List.all_eq_true.mp List.all_takeWhile c behind

theorem text_extend (mark : ParamMark) (rest : List Char) :
    (mark.extend rest).text = mark.text ++ rest.takeWhile Text.isWord := by
  simp only [text, extend, List.append_assoc, List.cons_append]

/-- The white space before the name ends the type. -/
theorem stops_type (mark : ParamMark) (rest : List Char) :
    (mark.space ++ rest).takeWhile isTypeChar = [] := by
  cases isSpace : mark.space with
  | nil => exact absurd isSpace mark.someSpace
  | cons c space =>
      have blank := mark.isSpace c (by simp [isSpace])
      exact List.takeWhile_cons_of_neg (by simp [not_isTypeChar_of_isBlank blank])

/-- The name ends the white space before it. -/
theorem stops_space (mark : ParamMark) (rest : List Char) :
    (mark.name ++ rest).takeWhile Text.isBlank = [] := by
  cases isName : mark.name with
  | nil => exact absurd isName mark.someName
  | cons c name =>
      refine List.takeWhile_cons_of_neg fun blank => ?_
      have word := mark.isName c (by simp [isName])
      rw [Text.isWord_of_isBlank blank] at word
      cases word

theorem text_injective (mark other : ParamMark) (same : mark.text = other.text) :
    mark = other := by
  obtain ⟨sameSign, sameRest⟩ := List.cons.inj same
  have stops := mark.stops_type mark.name
  have otherStops := other.stops_type other.name
  obtain ⟨sameTyping, sameName⟩ :=
    TypeMark.unique stops otherStops (List.append_cancel_left sameRest)
  have ends := mark.stops_space []
  have otherEnds := other.stops_space []
  rw [List.append_nil] at ends otherEnds
  obtain ⟨sameSpace, sameName⟩ :=
    Text.run_unique mark.isSpace other.isSpace ends otherEnds sameName
  exact ParamMark.ext sameSign sameTyping sameSpace sameName

end ParamMark

theorem paramAt_text (mark : ParamMark) (rest : List Char) :
    paramAt (mark.text ++ rest) =
      some (.param (mark.extend rest).typed.2 (mark.extend rest).typed.1,
        (mark.extend rest).text.length) := by
  have isCommand : commandAt "param".toList (mark.text ++ rest) =
      some (mark.typing.text ++ (mark.space ++ (mark.name ++ rest))) :=
    commandAt_eq_some_iff.mpr
      ⟨mark.sign, mark.isSign, by simp only [ParamMark.text, List.cons_append, List.append_assoc]⟩
  have isType := typeAt_of_stops mark.typing (mark.stops_type (mark.name ++ rest))
  have parted : Text.spanBlank (mark.space ++ (mark.name ++ rest)) =
      (mark.space, mark.name ++ rest) := by
    rw [Text.spanBlank, List.takeWhile_append_of_pos mark.isSpace,
      List.dropWhile_append_of_pos mark.isSpace, mark.stops_space,
      Text.dropWhile_of_stops (mark.stops_space rest), List.append_nil]
  have isRun : (mark.name ++ rest).takeWhile Text.isWord = (mark.extend rest).name :=
    List.takeWhile_append_of_pos mark.isName
  have length : (mark.text ++ rest).length - (rest.dropWhile Text.isWord).length =
      (mark.extend rest).text.length := by
    have parts := congrArg List.length
      (List.takeWhile_append_dropWhile (p := Text.isWord) (l := rest))
    rw [List.length_append] at parts
    rw [ParamMark.text_extend, List.length_append, List.length_append]
    omega
  unfold paramAt
  rw [isCommand]
  dsimp only
  rw [isType]
  dsimp only
  rw [parted]
  dsimp only
  rw [isRun, List.dropWhile_append_of_pos mark.isName, length,
    if_neg (by simp [mark.someSpace, (mark.extend rest).someName])]
  rfl

theorem exists_paramMark {text : List Char} {entry : Piece × Nat}
    (found : paramAt text = some entry) : ∃ mark : ParamMark, mark.text <+: text := by
  unfold paramAt at found
  split at found
  · cases found
  next rest isCommand =>
    obtain ⟨sign, isSign, rfl⟩ := commandAt_eq_some_iff.mp isCommand
    split at found
    · cases found
    next type after isType =>
      obtain ⟨typing, -, rfl⟩ := exists_typeMark isType
      dsimp only [Text.spanBlank] at found
      split at found
      · cases found
      next given =>
        rw [Bool.or_eq_true, not_or, List.isEmpty_iff, List.isEmpty_iff] at given
        let name := (after.dropWhile Text.isBlank).takeWhile Text.isWord
        let mark : ParamMark := {
          sign, typing, isSign, name
          space := after.takeWhile Text.isBlank
          someSpace := given.1
          isSpace := List.all_eq_true.mp List.all_takeWhile
          someName := given.2
          isName := List.all_eq_true.mp List.all_takeWhile }
        refine ⟨mark, (after.dropWhile Text.isBlank).dropWhile Text.isWord, ?_⟩
        show sign :: ("param".toList ++ (typing.text ++ (after.takeWhile Text.isBlank ++ name))) ++
          (after.dropWhile Text.isBlank).dropWhile Text.isWord = _
        simp only [List.cons_append, List.append_assoc, name, List.takeWhile_append_dropWhile]

theorem paramAt_eq_none {text : List Char} (absent : ∀ mark : ParamMark, ¬mark.text <+: text) :
    paramAt text = none := by
  by_contra found
  obtain ⟨entry, isFound⟩ := Option.ne_none_iff_exists'.mp found
  obtain ⟨mark, isPrefix⟩ := exists_paramMark isFound
  exact absent mark isPrefix

theorem paramAt_of_first {text behind : List Char} {mark : ParamMark}
    (first : FirstMark ParamMark.text text [] mark behind) :
    paramAt text = some (.param mark.typed.2 mark.typed.1, mark.text.length) := by
  have same : mark.extend behind = mark :=
    first.eq_of_extends ParamMark.text_injective (mark.text_extend behind)
      (List.takeWhile_prefix _)
  have read := paramAt_text mark behind
  rwa [same, ← List.nil_append (mark.text ++ behind), ← first.parts] at read

/-- Characters that are passed over are not looked at. -/
theorem piecesFrom_eq_drop (skip : Nat) (text : List Char) :
    piecesFrom skip text = piecesFrom 0 (text.drop skip) := by
  induction text generalizing skip with
  | nil => rw [List.drop_nil, piecesFrom, piecesFrom]
  | cons c rest ih =>
      cases skip with
      | zero => rfl
      | succ left => rw [piecesFrom, ih, List.drop_succ_cons]

theorem piecesFrom_of_none {c : Char} {rest : List Char} (none : paramAt (c :: rest) = none) :
    piecesFrom 0 (c :: rest) = .char c :: piecesFrom 0 rest := by
  rw [piecesFrom, none]

theorem piecesFrom_of_some {text : List Char} {piece : Piece} {length : Nat}
    (found : paramAt text = some (piece, length + 1)) :
    piecesFrom 0 text = piece :: piecesFrom 0 (text.drop (length + 1)) := by
  cases text with
  | nil => cases found
  | cons c rest =>
      rw [piecesFrom, found, List.drop_succ_cons, ← piecesFrom_eq_drop]
      rfl

theorem piecesFrom_of_unmarked {text : List Char} (unmarked : Unmarked ParamMark.text text) :
    piecesFrom 0 text = text.map Piece.char := by
  induction text with
  | nil => rfl
  | cons c rest ih =>
      rw [piecesFrom_of_none (paramAt_eq_none unmarked.front), ih unmarked.tail, List.map_cons]

theorem piecesFrom_of_first {text before behind : List Char} {mark : ParamMark}
    (first : FirstMark ParamMark.text text before mark behind) :
    piecesFrom 0 text =
      before.map Piece.char ++ .param mark.typed.2 mark.typed.1 :: piecesFrom 0 behind := by
  induction before generalizing text with
  | nil =>
      have read := paramAt_of_first first
      have length : mark.text.length = mark.text.tail.length + 1 := rfl
      rw [length] at read
      rw [piecesFrom_of_some read, ← length, first.parts, List.nil_append, List.drop_left]
      rfl
  | cons c before ih =>
      obtain ⟨rest, rfl⟩ : ∃ rest, text = c :: rest := ⟨_, first.parts⟩
      rw [piecesFrom_of_none (paramAt_eq_none first.front), ih first.tail, List.map_cons,
        List.cons_append]

theorem Piece.text_param (mark : ParamMark) :
    (param mark.typed.2 mark.typed.1).text = mark.bareText :=
  congrArg ("@param ".toList ++ ·) String.toList_ofList

theorem filterMap_typing_char (text : List Char) :
    (text.map Piece.char).filterMap Piece.typing = [] := by
  rw [List.filterMap_map]
  exact List.filterMap_eq_nil_iff.mpr fun _ _ => rfl

theorem flatMap_text_char (text : List Char) : (text.map Piece.char).flatMap Piece.text = text := by
  rw [List.flatMap_map]
  exact List.flatMap_singleton' text

/-- The pieces of a text give the types of its marks. -/
theorem filterMap_typing_of_marked {text last : List Char} {marks : List (List Char × ParamMark)}
    (marked : Marked ParamMark.text text marks last) :
    (piecesFrom 0 text).filterMap Piece.typing = (marks.map Prod.snd).map ParamMark.typed := by
  induction marked with
  | none unmarked => rw [piecesFrom_of_unmarked unmarked, filterMap_typing_char]; rfl
  | some first _ ih =>
      rw [piecesFrom_of_first first, List.filterMap_append, filterMap_typing_char,
        List.nil_append, List.map_cons, List.map_cons, ← ih]
      rfl

def bareText (marks : List (List Char × ParamMark)) (last : List Char) : List Char :=
  marks.flatMap (fun (before, mark) => before ++ mark.bareText) ++ last

theorem bareText_cons (before last : List Char) (mark : ParamMark)
    (later : List (List Char × ParamMark)) :
    bareText ((before, mark) :: later) last =
      before ++ (mark.bareText ++ bareText later last) := by
  simp only [bareText, List.flatMap_cons, List.append_assoc]

theorem flatMap_text_of_marked {text last : List Char} {marks : List (List Char × ParamMark)}
    (marked : Marked ParamMark.text text marks last) :
    (piecesFrom 0 text).flatMap Piece.text = bareText marks last := by
  induction marked with
  | none unmarked =>
      rw [piecesFrom_of_unmarked unmarked, flatMap_text_char, bareText, List.flatMap_nil,
        List.nil_append]
  | some first _ ih =>
      rw [piecesFrom_of_first first, List.flatMap_append, flatMap_text_char, List.flatMap_cons, ih,
        Piece.text_param, bareText_cons]

theorem paramTypes_of_marked {comment : String} {last : List Char}
    {marks : List (List Char × ParamMark)}
    (marked : Marked ParamMark.text comment.toList marks last) :
    paramTypes comment = (marks.map Prod.snd).map ParamMark.typed :=
  filterMap_typing_of_marked marked

theorem withoutParamTypes_of_marked {comment : String} {last : List Char}
    {marks : List (List Char × ParamMark)}
    (marked : Marked ParamMark.text comment.toList marks last) :
    withoutParamTypes comment = String.ofList (bareText marks last) :=
  congrArg String.ofList (flatMap_text_of_marked marked)

/-- The command for the result: a sign and `return` or `returns`, and the type. -/
@[ext] structure ResultMark where
  sign : Char
  isPlural : Bool
  typing : TypeMark
  isSign : IsSign sign

namespace ResultMark

def command (mark : ResultMark) : List Char :=
  mark.sign :: ("return".toList ++ if mark.isPlural then ['s'] else [])

def text (mark : ResultMark) : List Char :=
  mark.command ++ mark.typing.text

/-- The mark with a type that goes on as far as the text behind it lets it. -/
def extend (mark : ResultMark) (rest : List Char) : ResultMark :=
  { mark with typing := mark.typing.extend rest }

theorem text_extend (mark : ResultMark) (rest : List Char) :
    (mark.extend rest).text = mark.text ++ rest.takeWhile isTypeChar := by
  show mark.command ++ (mark.typing.extend rest).text = _
  rw [TypeMark.text_extend, text, List.append_assoc]

/-- The text behind the command starts with white space, so it does not go on with an `s`. -/
theorem typing_ne (mark : ResultMark) (rest later : List Char) :
    mark.typing.text ++ rest ≠ 's' :: later := by
  intro same
  cases isGap : mark.typing.gap with
  | nil => exact mark.typing.someGap isGap
  | cons c gap =>
      rw [TypeMark.text, isGap] at same
      have blank := mark.typing.isGap c (by simp [isGap])
      rw [(List.cons.inj same).1] at blank
      cases blank

end ResultMark

theorem behind_text (mark : ResultMark) (rest : List Char) :
    Place.behind .result (mark.text ++ rest) = some (mark.typing.text ++ rest) := by
  have isCommand : commandAt "return".toList (mark.text ++ rest) =
      some ((if mark.isPlural then ['s'] else []) ++ (mark.typing.text ++ rest)) :=
    commandAt_eq_some_iff.mpr ⟨mark.sign, mark.isSign, by
      simp only [ResultMark.text, ResultMark.command, List.cons_append, List.append_assoc]⟩
  rw [Place.behind, isCommand, Option.map_some]
  cases mark.isPlural with
  | true => rfl
  | false =>
      show some _ = _
      split
      next later same => exact absurd same (mark.typing_ne rest later)
      next => rfl

theorem ResultMark.text_injective (mark other : ResultMark) (same : mark.text = other.text) :
    mark = other := by
  have behind := behind_text mark []
  rw [same, behind_text other []] at behind
  obtain ⟨sameTyping, -⟩ := TypeMark.unique rfl rfl (Option.some.inj behind.symm)
  have sameCommand : mark.command = other.command := by
    rw [text, text, sameTyping] at same
    exact List.append_cancel_right same
  obtain ⟨sameSign, sameWord⟩ := List.cons.inj sameCommand
  have samePlural : mark.isPlural = other.isPlural := by
    have lengths := congrArg List.length (List.append_cancel_left sameWord)
    cases isPlural : mark.isPlural <;> cases otherPlural : other.isPlural <;>
      simp [isPlural, otherPlural] at lengths ⊢
  exact ResultMark.ext sameSign samePlural sameTyping

theorem atFront?_text (mark : ResultMark) (rest : List Char) :
    atFront? .result (mark.text ++ rest) =
      some ⟨mark.command, (mark.extend rest).typing.type, rest.dropWhile isTypeChar⟩ := by
  have front : (mark.text ++ rest).take
      ((mark.text ++ rest).length - (mark.typing.text ++ rest).length) = mark.command := by
    rw [ResultMark.text, List.append_assoc, List.length_append, Nat.add_sub_cancel, List.take_left]
  rw [atFront?, behind_text]
  dsimp only
  rw [typeAt_text, Option.map_some]
  dsimp only
  rw [front]
  rfl

theorem exists_resultMark {text : List Char} {found : Found}
    (isFound : atFront? .result text = some found) :
    ∃ mark : ResultMark, mark.text <+: text := by
  rw [atFront?] at isFound
  split at isFound
  · cases isFound
  next rest isBehind =>
    obtain ⟨⟨type, behind⟩, isType, -⟩ := Option.map_eq_some_iff.mp isFound
    obtain ⟨typing, -, rfl⟩ := exists_typeMark isType
    obtain ⟨after, isCommand, restIs⟩ := Option.map_eq_some_iff.mp isBehind
    obtain ⟨sign, isSign, rfl⟩ := commandAt_eq_some_iff.mp isCommand
    split at restIs
    next later =>
      refine ⟨⟨sign, true, typing, isSign⟩, behind, ?_⟩
      rw [restIs]
      simp [ResultMark.text, ResultMark.command]
    next =>
      refine ⟨⟨sign, false, typing, isSign⟩, behind, ?_⟩
      rw [restIs]
      simp [ResultMark.text, ResultMark.command]

theorem atFront?_eq_none {text : List Char} (absent : ∀ mark : ResultMark, ¬mark.text <+: text) :
    atFront? .result text = none := by
  by_contra isFound
  obtain ⟨found, isFound⟩ := Option.ne_none_iff_exists'.mp isFound
  obtain ⟨mark, isPrefix⟩ := exists_resultMark isFound
  exact absent mark isPrefix

theorem atFront?_of_first {text behind : List Char} {mark : ResultMark}
    (first : FirstMark ResultMark.text text [] mark behind) :
    atFront? .result text = some ⟨mark.command, mark.typing.type, behind⟩ := by
  have same : mark.extend behind = mark :=
    first.eq_of_extends ResultMark.text_injective (mark.text_extend behind)
      (List.takeWhile_prefix _)
  have noRun : behind.takeWhile isTypeChar = [] := by
    have longer := mark.text_extend behind
    rw [same] at longer
    exact List.self_eq_append_right.mp longer
  have read := atFront?_text mark behind
  rwa [same, Text.dropWhile_of_stops noRun, ← List.nil_append (mark.text ++ behind),
    ← first.parts] at read

theorem find?_of_unmarked {text : List Char} (unmarked : Unmarked ResultMark.text text) :
    find? .result text = none := by
  induction text with
  | nil => rfl
  | cons c rest ih =>
      rw [find?, atFront?_eq_none unmarked.front, ih unmarked.tail]
      rfl

theorem find?_of_first {text before behind : List Char} {mark : ResultMark}
    (first : FirstMark ResultMark.text text before mark behind) :
    find? .result text = some ⟨before ++ mark.command, mark.typing.type, behind⟩ := by
  induction before generalizing text with
  | nil =>
      obtain ⟨c, rest, rfl⟩ : ∃ c rest, text = c :: rest := ⟨_, _, first.parts⟩
      rw [find?, atFront?_of_first first]
      rfl
  | cons c before ih =>
      obtain ⟨rest, rfl⟩ : ∃ rest, text = c :: rest := ⟨_, first.parts⟩
      rw [find?, atFront?_eq_none first.front, ih first.tail]
      rfl

theorem take_of_unmarked {comment : List Char} (type : String)
    (unmarked : Unmarked ResultMark.text comment) :
    take .result (String.ofList comment) type = (String.ofList comment, type) := by
  apply take_of_none
  rw [String.toList_ofList]
  exact find?_of_unmarked unmarked

theorem take_of_first {comment before behind : List Char} {mark : ResultMark} (type : String)
    (first : FirstMark ResultMark.text comment before mark behind) :
    take .result (String.ofList comment) type =
      (String.ofList (before ++ mark.command ++ behind), String.ofList mark.typing.type) := by
  rw [take, String.toList_ofList, find?_of_first first]

end Annotation

end QmlDoc
