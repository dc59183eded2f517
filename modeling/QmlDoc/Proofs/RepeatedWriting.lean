import Mathlib.Logic.Function.Iterate
import QmlDoc.Proofs.TypeMarks

set_option autoImplicit false

namespace QmlDoc

namespace Annotation

open Text (Unmarked Marked)

theorem TypeMark.length_text (mark : TypeMark) : 7 ≤ mark.text.length := by
  have gap := List.length_pos_iff.mpr mark.someGap
  have type := List.length_pos_iff.mpr mark.someType
  have word : "type:".toList.length = 5 := rfl
  rw [text, List.length_append, List.length_append, word]
  omega

/-- Without its type the command for a parameter is shorter, though its white space becomes a
space. -/
theorem ParamMark.length_bareText (mark : ParamMark) :
    mark.bareText.length + 7 ≤ mark.text.length := by
  have typing := mark.typing.length_text
  have space := List.length_pos_iff.mpr mark.someSpace
  have bare : mark.bareText.length = 7 + mark.name.length := List.length_append
  have whole : mark.text.length =
      5 + (mark.typing.text.length + (mark.space.length + mark.name.length)) + 1 := by
    rw [text, List.length_cons, List.length_append, List.length_append, List.length_append]
    rfl
  omega

theorem length_bareText_of_marked {text last : List Char} {marks : List (List Char × ParamMark)}
    (marked : Marked ParamMark.text text marks last) :
    (bareText marks last).length + 7 * marks.length ≤ text.length := by
  induction marked with
  | none => exact Nat.le_refl _
  | @some text before behind last mark later first _ ih =>
      have room := mark.length_bareText
      have whole := congrArg List.length first.parts
      rw [bareText_cons]
      simp only [List.length_append, List.length_cons] at whole ⊢
      omega

theorem paramTypes_eq_nil_iff (comment : String) :
    paramTypes comment = [] ↔ Unmarked ParamMark.text comment.toList := by
  obtain ⟨marks, last, marked⟩ := Text.exists_marked ParamMark.text_ne_nil comment.toList
  rw [paramTypes_of_marked marked]
  cases marked with
  | none unmarked => exact iff_of_true rfl unmarked
  | some first => exact iff_of_false (List.cons_ne_nil _ _) first.not_unmarked

/-- The types of parameters take up room in a comment. -/
theorem withoutParamTypes_room (comment : String) :
    (withoutParamTypes comment).length + 7 * (paramTypes comment).length ≤ comment.length := by
  obtain ⟨marks, last, marked⟩ := Text.exists_marked ParamMark.text_ne_nil comment.toList
  have room := length_bareText_of_marked marked
  rwa [paramTypes_of_marked marked, withoutParamTypes_of_marked marked, String.length_ofList,
    List.length_map, List.length_map, ← String.length_toList]

theorem Place.behind_suffix {place : Place} {text rest : List Char}
    (found : place.behind text = some rest) : rest <:+ text := by
  cases place with
  | anywhere =>
      obtain rfl := Option.some.inj found
      exact List.suffix_refl _
  | result =>
      obtain ⟨after, isCommand, restIs⟩ := Option.map_eq_some_iff.mp found
      obtain ⟨sign, -, rfl⟩ := commandAt_eq_some_iff.mp isCommand
      have behind : after <:+ sign :: ("return".toList ++ after) :=
        (List.suffix_append _ _).trans (List.suffix_cons _ _)
      split at restIs
      next later =>
        subst restIs
        exact (List.suffix_cons _ _).trans behind
      next =>
        subst restIs
        exact behind

/-- An annotation is what stands between the text before it and the text behind it. -/
theorem find?_parts {place : Place} {text : List Char} {found : Found}
    (isFound : find? place text = some found) :
    ∃ mark : TypeMark, text = found.before ++ (mark.text ++ found.behind) := by
  induction text generalizing found with
  | nil => cases isFound
  | cons c rest ih =>
      rw [find?] at isFound
      split at isFound
      next isFront =>
        obtain rfl := Option.some.inj isFound
        rw [atFront?] at isFront
        split at isFront
        · cases isFront
        next after isBehind =>
          obtain ⟨⟨type, behind⟩, isType, rfl⟩ := Option.map_eq_some_iff.mp isFront
          obtain ⟨mark, -, afterIs⟩ := exists_typeMark isType
          refine ⟨mark, ?_⟩
          rw [← afterIs]
          exact (List.suffix_iff_eq_append.mp (Place.behind_suffix isBehind)).symm
      next =>
        obtain ⟨later, isLater, rfl⟩ := Option.map_eq_some_iff.mp isFound
        obtain ⟨mark, parts⟩ := ih isLater
        exact ⟨mark, congrArg (c :: ·) parts⟩

/-- A type that moves out of a comment leaves no trace there. -/
theorem take_room {place : Place} {comment : String} (type : String)
    (some : find? place comment.toList ≠ none) :
    (take place comment type).1.length + 7 ≤ comment.length := by
  obtain ⟨found, isFound⟩ := Option.ne_none_iff_exists'.mp some
  obtain ⟨mark, parts⟩ := find?_parts isFound
  have room := mark.length_text
  have whole := congrArg List.length parts
  rw [take, isFound]
  simp only [String.length_ofList, List.length_append, String.length_toList] at whole ⊢
  omega

theorem take_fst_length_le (place : Place) (comment type : String) :
    (take place comment type).1.length ≤ comment.length := by
  by_cases none : find? place comment.toList = none
  · rw [take_of_none type none]
  · have shorter := take_room type none
    omega

/-- Where no annotation is found, none stands in front of any part of the text. -/
theorem atFront?_drop {place : Place} {text : List Char} (unfound : find? place text = none)
    (start : Nat) (within : start < text.length) : atFront? place (text.drop start) = none := by
  induction text generalizing start with
  | nil => cases within
  | cons c rest ih =>
      rw [find?] at unfound
      split at unfound
      · cases unfound
      next isFront =>
        cases start with
        | zero => exact isFront
        | succ start =>
            exact ih (Option.map_eq_none_iff.mp unfound) start (Nat.lt_of_succ_lt_succ within)

theorem find?_anywhere_eq_none_iff (text : List Char) :
    find? .anywhere text = none ↔ Unmarked TypeMark.text text := by
  constructor
  · rintro unfound mark start ⟨behind, parts⟩
    have within : start < text.length := by
      have room := mark.length_text
      have whole := congrArg List.length parts
      rw [List.length_append, List.length_drop] at whole
      omega
    have isFront := atFront?_drop unfound start within
    rw [← parts, atFront?, Place.behind] at isFront
    dsimp only at isFront
    rw [typeAt_text] at isFront
    cases isFront
  · intro unmarked
    by_contra some
    obtain ⟨found, isFound⟩ := Option.ne_none_iff_exists'.mp some
    obtain ⟨mark, parts⟩ := find?_parts isFound
    apply unmarked mark found.before.length
    rw [parts, List.drop_left]
    exact List.prefix_append _ _

theorem find?_result_eq_none_iff (text : List Char) :
    find? .result text = none ↔ Unmarked ResultMark.text text := by
  rcases Text.unmarked_or_firstMark ResultMark.text text with
    unmarked | ⟨before, mark, behind, first⟩
  · exact iff_of_true (find?_of_unmarked unmarked) unmarked
  · rw [find?_of_first first]
    exact iff_of_false (Option.some_ne_none _) first.not_unmarked

end Annotation

namespace Printed

variable {α : Type} (print : α → Printed α)

/-- What is left of `a` when it was written once. -/
def left (a : α) : α :=
  (print a).after

/-- Writing `a` changes nothing and reports nothing. -/
def Rests (a : α) : Prop :=
  left print a = a ∧ (print a).notices = []

variable {print}

theorem Rests.print_eq {a : α} (rests : Rests print a) : print a = ⟨(print a).text, a, []⟩ := by
  obtain ⟨same, silent⟩ := rests
  rw [← silent]
  nth_rewrite 3 [← same]
  rfl

/-- What loses a part of its size each time, unless it rests, comes to rest. -/
theorem exists_rests (size : α → Nat) {part : Nat} (positive : 0 < part)
    (step : ∀ a, Rests print a ∨ size (left print a) + part ≤ size a) (a : α) :
    ∃ calls, part * calls ≤ size a ∧ Rests print ((left print)^[calls] a) := by
  induction length : size a using Nat.strongRecOn generalizing a with
  | ind length ih =>
      rcases step a with rests | shorter
      · exact ⟨0, Nat.zero_le _, rests⟩
      · obtain ⟨calls, few, rests⟩ :=
          ih (size (left print a)) (by omega) (left print a) rfl
        refine ⟨calls + 1, ?_, rests⟩
        rw [Nat.mul_succ]
        omega

/-- Writing `a` over and over. One call leaves everything as it is and reports nothing if the
comment gives no type; otherwise it makes the comment shorter, by seven characters at least. So some
calls are enough, a seventh of the length of the comment at most, and all later ones give the same
text, change nothing and report nothing. -/
structure ComesToRest (print : α → Printed α) (comment : α → String) (Typeless : α → Prop)
    (a : α) : Prop where
  step : Typeless a ∧ Rests print a ∨
    ¬Typeless a ∧ (comment (left print a)).length + 7 ≤ (comment a).length
  lasting : ∃ calls text settled, 7 * calls ≤ (comment a).length ∧ Typeless settled ∧
    print settled = ⟨text, settled, []⟩ ∧
    ∀ later, calls ≤ later → (left print)^[later] a = settled

theorem comesToRest {comment : α → String} {Typeless : α → Prop}
    (rests : ∀ a, Typeless a → Rests print a)
    (shorter : ∀ a, ¬Typeless a → (comment (left print a)).length + 7 ≤ (comment a).length)
    (a : α) : ComesToRest print comment Typeless a := by
  have step (a : α) : Typeless a ∧ Rests print a ∨
      ¬Typeless a ∧ (comment (left print a)).length + 7 ≤ (comment a).length := by
    by_cases typeless : Typeless a
    · exact Or.inl ⟨typeless, rests a typeless⟩
    · exact Or.inr ⟨typeless, shorter a typeless⟩
  refine ⟨step a, ?_⟩
  obtain ⟨calls, few, atRest⟩ := exists_rests (fun a => (comment a).length)
    (by decide : 0 < 7) (fun a => (step a).imp And.right And.right) a
  refine ⟨calls, _, _, few, ?_, atRest.print_eq, fun later behind => ?_⟩
  · -- a comment that still gave a type would get shorter, but it stays the same
    by_contra typed
    have less := shorter _ typed
    rw [atRest.1] at less
    omega
  · obtain ⟨more, rfl⟩ := Nat.exists_eq_add_of_le' behind
    rw [Function.iterate_add_apply, Function.iterate_fixed atRest.1]

end Printed

open Annotation (find?_result_eq_none_iff paramTypes_eq_nil_iff withoutParamTypes
  withoutParamTypes_of_nil)

theorem Property.bare_iff (p : Property) :
    p.Bare ↔ Text.Unmarked Annotation.TypeMark.text p.doc.text.toList :=
  Annotation.find?_anywhere_eq_none_iff _

theorem Function.bare_iff (f : Function) :
    f.Bare ↔ Text.Unmarked Annotation.ParamMark.text f.doc.text.toList ∧
      Text.Unmarked Annotation.ResultMark.text f.doc.text.toList :=
  and_congr (paramTypes_eq_nil_iff _) (find?_result_eq_none_iff _)

theorem Property.left_print (p : Property) : Printed.left Property.print p = p.settle :=
  rfl

theorem Function.left_print (f : Function) : Printed.left Function.print f = f.settle.1 := by
  rw [Printed.left, print]

theorem Property.rests_of_bare (p : Property) (bare : p.Bare) :
    Printed.Rests Property.print p := by
  refine ⟨?_, rfl⟩
  rw [left_print, p.settle_of_bare bare]

theorem Function.rests_of_bare (f : Function) (bare : f.Bare) :
    Printed.Rests Function.print f := by
  have settled := f.settle_of_bare bare
  constructor
  · rw [left_print, settled]
  · rw [print, settled]

theorem Property.length_doc_settle (p : Property) (typed : ¬p.Bare) :
    p.settle.doc.text.length + 7 ≤ p.doc.text.length := by
  rw [settle]
  exact Annotation.take_room p.type typed

/-- Types of parameters make the comment shorter before the type of the result is looked for.
Without them it is looked for in the comment as it was. -/
theorem Function.length_doc_settle (f : Function) (typed : ¬f.Bare) :
    f.settle.1.doc.text.length + 7 ≤ f.doc.text.length := by
  have params := Annotation.withoutParamTypes_room f.doc.text
  rw [settle_eq]
  dsimp only
  by_cases noParam : Annotation.paramTypes f.doc.text = []
  · rw [withoutParamTypes_of_nil _ noParam]
    exact Annotation.take_room f.type fun noResult => typed ⟨noParam, noResult⟩
  · have some := List.length_pos_iff.mpr noParam
    have result :=
      Annotation.take_fst_length_le .result (withoutParamTypes f.doc.text) f.type
    omega

/-- Properties and functions come to rest when they are written, whatever their comments and
arguments are. Taking a type out can bring up another one where the ends meet, but the comment
gets shorter each time. -/
theorem print_comesToRest (p : Property) (f : Function) :
    Printed.ComesToRest Property.print (fun p => p.doc.text)
        (fun p => Text.Unmarked Annotation.TypeMark.text p.doc.text.toList) p ∧
      Printed.ComesToRest Function.print (fun f => f.doc.text)
        (fun f => Text.Unmarked Annotation.ParamMark.text f.doc.text.toList ∧
          Text.Unmarked Annotation.ResultMark.text f.doc.text.toList) f := by
  constructor
  · refine Printed.comesToRest (fun p typeless => ?_) (fun p typed => ?_) p
    · exact p.rests_of_bare (p.bare_iff.mpr typeless)
    · rw [p.left_print]
      exact p.length_doc_settle fun bare => typed (p.bare_iff.mp bare)
  · refine Printed.comesToRest (fun f typeless => ?_) (fun f typed => ?_) f
    · exact f.rests_of_bare (f.bare_iff.mpr typeless)
    · rw [f.left_print]
      exact f.length_doc_settle fun bare => typed (f.bare_iff.mp bare)

-- The name of the first parameter is `type`; without its type it gives one to the second.
example :
    let f : Function :=
      { name := "f", args := [{ name := "x" }], doc := { text := "@param type:int type:real x" } }
    f.print.after.doc.text = "@param type:real x" ∧
      f.print.after.print.after.doc.text = "@param x" ∧
      f.print.after.print.after.args = [{ name := "x", type := "real" }] := by
  decide +kernel

end QmlDoc
