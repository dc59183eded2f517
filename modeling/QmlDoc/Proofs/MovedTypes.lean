import QmlDoc.Proofs.TypeMarks

set_option autoImplicit false

namespace QmlDoc.Function

open Annotation (ParamMark ResultMark bareText paramTypes_of_marked withoutParamTypes_of_marked)
open Text (FirstMark Unmarked Marked)

def lastType (typings : List (String × String)) (name : String) : Option String :=
  (typings.filter (·.1 = name)).getLast?.map Prod.snd

/-- The type of an argument behind some earlier ones. One that shares its name with an earlier one
keeps its own type, as does one to whose name no type is given. -/
def typeBehind (typings : List (String × String)) (earlier : List Argument) (arg : Argument) :
    String :=
  if arg.name ∈ earlier.map Argument.name then arg.type
  else (lastType typings arg.name).getD arg.type

/-- The arguments are the same, in the same order, but for the types that are given to them. -/
structure Retyped (typings : List (String × String)) (args typed : List Argument) : Prop where
  length : typed.length = args.length
  getElem? : ∀ (place : Nat) (arg : Argument), args[place]? = some arg →
    typed[place]? = some { arg with type := typeBehind typings (args.take place) arg }

theorem lastType_append (earlier later : List (String × String)) (name : String) :
    lastType (earlier ++ later) name = (lastType later name).or (lastType earlier name) := by
  rw [lastType, List.filter_append, List.getLast?_append, Option.map_or]
  rfl

theorem typeBehind_nil (earlier : List Argument) (arg : Argument) :
    typeBehind [] earlier arg = arg.type := by
  unfold typeBehind
  split
  · rfl
  · rfl

/-- Of the arguments before, only the names count. -/
theorem typeBehind_congr {typings : List (String × String)} {earlier others : List Argument}
    (sameNames : earlier.map Argument.name = others.map Argument.name) (arg : Argument) :
    typeBehind typings earlier arg = typeBehind typings others arg := by
  rw [typeBehind, typeBehind, sameNames]

theorem typeBehind_append (front later : List (String × String)) (earlier : List Argument)
    (arg : Argument) :
    typeBehind (front ++ later) earlier arg =
      typeBehind later earlier { arg with type := typeBehind front earlier arg } := by
  by_cases shared : arg.name ∈ earlier.map Argument.name
  · simp only [typeBehind, if_pos shared]
  · simp only [typeBehind, if_neg shared, lastType_append]
    cases lastType later arg.name with
    | none => rw [Option.none_or, Option.getD_none]
    | some type => rw [Option.some_or, Option.getD_some, Option.getD_some]

namespace Retyped

variable {typings front later : List (String × String)} {args between typed : List Argument}

theorem names (retyped : Retyped typings args typed) :
    typed.map Argument.name = args.map Argument.name := by
  apply List.ext_getElem?
  intro place
  rw [List.getElem?_map, List.getElem?_map]
  cases isArg : args[place]? with
  | none =>
      have outside := List.getElem?_eq_none_iff.mp isArg
      rw [← retyped.length] at outside
      rw [List.getElem?_eq_none outside]
  | some arg =>
      rw [retyped.getElem? place arg isArg]
      rfl

theorem refl (args : List Argument) : Retyped [] args args where
  length := rfl
  getElem? place arg isArg := by rw [typeBehind_nil, isArg]

/-- What is given later is given to arguments with the same names. -/
theorem trans (first : Retyped front args between) (second : Retyped later between typed) :
    Retyped (front ++ later) args typed where
  length := second.length.trans first.length
  getElem? place arg isArg := by
    have sameNames : (between.take place).map Argument.name =
        (args.take place).map Argument.name := by
      rw [List.map_take, List.map_take, first.names]
    rw [second.getElem? place _ (first.getElem? place arg isArg), typeBehind_congr sameNames,
      typeBehind_append]

end Retyped

/-- One type given to the first argument with a name, if there is one. -/
def giveType (args : List Argument) (typing : String × String) : List Argument :=
  (setType typing.1 typing.2 args).getD args

theorem setType_eq_none_iff {name type : String} {args : List Argument} :
    setType name type args = none ↔ name ∉ args.map Argument.name := by
  induction args with
  | nil => simp [setType]
  | cons arg later ih =>
      rw [setType, List.map_cons, List.mem_cons, not_or]
      by_cases named : arg.name = name
      · simp [named]
      · rw [if_neg named, Option.map_eq_none_iff, ih]
        exact ⟨fun absent => ⟨Ne.symm named, absent⟩, fun absent => absent.2⟩

theorem giveType_cons_of_eq (arg : Argument) (later : List Argument) (type : String) :
    giveType (arg :: later) (arg.name, type) = { arg with type } :: later := by
  rw [giveType, setType, if_pos rfl, Option.getD_some]

theorem giveType_cons_of_ne {arg : Argument} {name : String} (other : arg.name ≠ name)
    (later : List Argument) (type : String) :
    giveType (arg :: later) (name, type) = arg :: giveType later (name, type) := by
  rw [giveType, setType, if_neg other, giveType]
  cases setType name type later with
  | none => rfl
  | some typed => rfl

/-- The first argument with the name takes the type, so that none behind it does. -/
theorem typeBehind_of_eq (first : Argument) (earlier : List Argument) (arg : Argument)
    (type : String) : typeBehind [(first.name, type)] (first :: earlier) arg = arg.type := by
  by_cases named : arg.name = first.name
  · rw [typeBehind, if_pos (by simp [named])]
  · simp [typeBehind, lastType, Ne.symm named]

/-- An argument with another name leaves the type to those behind it. -/
theorem typeBehind_of_ne {first : Argument} {name : String} (other : first.name ≠ name)
    (earlier : List Argument) (arg : Argument) (type : String) :
    typeBehind [(name, type)] (first :: earlier) arg =
      typeBehind [(name, type)] earlier arg := by
  by_cases named : arg.name = name
  · simp [typeBehind, named, Ne.symm other]
  · simp [typeBehind, lastType, Ne.symm named]

theorem retyped_giveType (args : List Argument) (typing : String × String) :
    Retyped [typing] args (giveType args typing) := by
  obtain ⟨name, type⟩ := typing
  induction args with
  | nil => exact ⟨rfl, fun _ _ isArg => by cases isArg⟩
  | cons first later ih =>
      by_cases named : first.name = name
      · subst named
        rw [giveType_cons_of_eq]
        refine ⟨rfl, fun place arg isArg => ?_⟩
        cases place with
        | zero =>
            obtain rfl := Option.some.inj isArg
            simp [typeBehind, lastType]
        | succ place =>
            rw [List.getElem?_cons_succ] at isArg ⊢
            rw [List.take_succ_cons, typeBehind_of_eq, isArg]
      · rw [giveType_cons_of_ne named]
        refine ⟨congrArg (· + 1) ih.length, fun place arg isArg => ?_⟩
        cases place with
        | zero =>
            obtain rfl := Option.some.inj isArg
            simp [typeBehind, lastType, Ne.symm named]
        | succ place =>
            rw [List.getElem?_cons_succ] at isArg ⊢
            rw [List.take_succ_cons, typeBehind_of_ne named, ih.getElem? place arg isArg]

/-- A type for a name that no argument has changes nothing but what is reported. -/
theorem setTypes_cons (function : String) (typing : String × String)
    (later : List (String × String)) (args : List Argument) :
    setTypes function (typing :: later) args =
      let typed := setTypes function later (giveType args typing)
      (typed.1, if typing.1 ∈ args.map Argument.name then typed.2
        else .unknownArgument function typing.1 :: typed.2) := by
  obtain ⟨name, type⟩ := typing
  rw [setTypes, giveType]
  cases given : setType name type args with
  | none => simp [setType_eq_none_iff.mp given]
  | some typed =>
      have named : name ∈ args.map Argument.name := by
        by_contra absent
        rw [setType_eq_none_iff.mpr absent] at given
        cases given
      simp [named]

theorem setTypes_retyped (function : String) (typings : List (String × String))
    (args : List Argument) : Retyped typings args (setTypes function typings args).1 := by
  induction typings generalizing args with
  | nil => exact Retyped.refl args
  | cons typing later ih =>
      rw [setTypes_cons]
      exact (retyped_giveType args typing).trans (ih (giveType args typing))

/-- The types for names that no argument has are reported in their order. -/
theorem setTypes_notices (function : String) (typings : List (String × String))
    (args : List Argument) :
    (setTypes function typings args).2 =
      (typings.filter (·.1 ∉ args.map Argument.name)).map (.unknownArgument function ·.1) := by
  induction typings generalizing args with
  | nil => rfl
  | cons typing later ih =>
      have sameNames := (retyped_giveType args typing).names
      rw [setTypes_cons]
      dsimp only
      rw [ih, sameNames]
      by_cases named : typing.1 ∈ args.map Argument.name
      · rw [if_pos named, List.filter_cons_of_neg (by simpa using named)]
      · rw [if_neg named, List.filter_cons_of_pos (by simpa using named), List.map_cons]

/-- `settled` is the function `f` with types moved out of its comment: those of some typings to the
arguments, and the first type of a result in `comment`, which is the text that is left without the
typings. -/
structure TypesMoved (f : Function) (typings : List (String × String)) (comment : List Char)
    (settled : Function) (notices : List Notice) : Prop where
  name : settled.name = f.name
  isInline : settled.doc.isInline = f.doc.isInline
  args : Retyped typings f.args settled.args
  notices : notices =
    (typings.filter (·.1 ∉ f.args.map Argument.name)).map (.unknownArgument f.name ·.1)
  result :
    (Unmarked ResultMark.text comment ∧ settled.doc.text = String.ofList comment ∧
      settled.type = f.type) ∨
    ∃ before mark behind, FirstMark ResultMark.text comment before mark behind ∧
      settled.doc.text = String.ofList (before ++ mark.command ++ behind) ∧
      settled.type = String.ofList mark.typing.type

/-- Writing a function moves the types out of its comment. The marks of the comment are applied one
after the other to arguments that may share a name, so what counts is the last mark for a name and
the first argument with it; a second look at the comment, without these marks, finds the type of the
result. -/
theorem settle_moves_types (f : Function) :
    ∃ marks last, Marked ParamMark.text f.doc.text.toList marks last ∧
      (∀ others otherLast, Marked ParamMark.text f.doc.text.toList others otherLast →
        others = marks ∧ otherLast = last) ∧
      TypesMoved f ((marks.map Prod.snd).map ParamMark.typed) (bareText marks last) f.settle.1
        f.settle.2 := by
  obtain ⟨marks, last, marked⟩ := Text.exists_marked ParamMark.text_ne_nil f.doc.text.toList
  refine ⟨marks, last, marked, fun _ _ => marked.unique ParamMark.text_injective, ?_⟩
  have settled := f.settle_eq
  rw [paramTypes_of_marked marked, withoutParamTypes_of_marked marked] at settled
  rw [settled]
  refine ⟨rfl, rfl, setTypes_retyped _ _ _, setTypes_notices _ _ _, ?_⟩
  rcases Text.unmarked_or_firstMark ResultMark.text (bareText marks last) with
    unmarked | ⟨before, mark, behind, first⟩
  · have kept := Annotation.take_of_unmarked f.type unmarked
    exact Or.inl ⟨unmarked, congrArg Prod.fst kept, congrArg Prod.snd kept⟩
  · have moved := Annotation.take_of_first f.type first
    exact Or.inr ⟨before, mark, behind, first, congrArg Prod.fst moved, congrArg Prod.snd moved⟩

end QmlDoc.Function
