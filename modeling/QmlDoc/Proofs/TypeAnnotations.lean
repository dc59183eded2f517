import Mathlib.Data.List.Basic
import QmlDoc.Declaration.Printer
import QmlDoc.Proofs.Words

set_option autoImplicit false

namespace QmlDoc

namespace Annotation

theorem commandAt_length {name text rest : List Char} (found : commandAt name text = some rest) :
    rest.length + name.length + 1 = text.length := by
  cases text with
  | nil => cases found
  | cons c text =>
      rw [commandAt] at found
      split at found
      · have order := List.isPrefixOf?_eq_some_iff_append_eq.mp found
        rw [← order, List.length_cons, List.length_append]
        omega
      · cases found

theorem spanBlank_length {text gap rest : List Char} (parted : Text.spanBlank text = (gap, rest)) :
    gap.length + rest.length = text.length := by
  obtain ⟨rfl, rfl⟩ := Prod.mk.inj parted
  rw [← List.length_append, List.takeWhile_append_dropWhile]

/-- White space, `type:` and the name of the type take up room. -/
theorem typeAt_length {text type behind : List Char}
    (found : typeAt text = some (type, behind)) :
    type.length + behind.length + 6 ≤ text.length := by
  rw [typeAt] at found
  cases parted : Text.spanBlank text with
  | mk gap rest =>
      have whole := spanBlank_length parted
      rw [parted] at found
      dsimp only at found
      split at found
      · cases found
      next someGap =>
        have gapLength := List.length_pos_iff.mpr fun isNil => someGap (List.isEmpty_iff.mpr isNil)
        split at found
        · cases found
        next after isMarked =>
          have marked := congrArg List.length (List.isPrefixOf?_eq_some_iff_append_eq.mp isMarked)
          have mark : "type:".toList.length = 5 := rfl
          rw [List.length_append, mark] at marked
          split at found
          · cases found
          · obtain ⟨rfl, rfl⟩ := Prod.mk.inj (Option.some.inj found)
            have parts : (after.takeWhile isTypeChar ++ after.dropWhile isTypeChar).length =
                after.length := by rw [List.takeWhile_append_dropWhile]
            rw [List.length_append] at parts
            omega

theorem Place.behind_length {place : Place} {text rest : List Char}
    (found : place.behind text = some rest) : rest.length ≤ text.length := by
  cases place with
  | anywhere => cases found; exact Nat.le_refl _
  | result =>
      obtain ⟨after, isCommand, rfl⟩ := Option.map_eq_some_iff.mp found
      have length := commandAt_length isCommand
      split
      · rw [List.length_cons] at length
        omega
      · omega

theorem atFront?_length {place : Place} {text : List Char} {found : Found}
    (isFound : atFront? place text = some found) :
    found.before.length + found.type.length + found.behind.length + 6 ≤ text.length := by
  rw [atFront?] at isFound
  split at isFound
  · cases isFound
  next rest isBehind =>
    obtain ⟨⟨type, behind⟩, isType, rfl⟩ := Option.map_eq_some_iff.mp isFound
    have shorter := Place.behind_length isBehind
    have room := typeAt_length isType
    simp only [List.length_take]
    omega

theorem find?_length {place : Place} {text : List Char} {found : Found}
    (isFound : find? place text = some found) :
    found.before.length + found.type.length + found.behind.length + 6 ≤ text.length := by
  induction text generalizing found with
  | nil => cases isFound
  | cons c rest ih =>
      rw [find?] at isFound
      split at isFound
      next atFront =>
        cases isFound
        exact atFront?_length atFront
      next =>
        obtain ⟨later, isLater, rfl⟩ := Option.map_eq_some_iff.mp isFound
        have room := ih isLater
        simp only [List.length_cons]
        omega

theorem take_of_none {place : Place} {comment : String} (type : String)
    (none : find? place comment.toList = none) : take place comment type = (comment, type) := by
  rw [take, none]

/-- A type that moves out of the comment makes the comment shorter by more than its length. -/
theorem take_length {place : Place} {comment : String} (type : String)
    (some : find? place comment.toList ≠ none) :
    (take place comment type).1.length + (take place comment type).2.length < comment.length := by
  obtain ⟨found, isFound⟩ := Option.ne_none_iff_exists'.mp some
  have room := find?_length isFound
  rw [take, isFound]
  simp only [String.length_ofList, List.length_append, String.length_toList] at room ⊢
  omega

theorem take_length_le (place : Place) (comment type : String) :
    (take place comment type).1.length + (take place comment type).2.length ≤
      comment.length + type.length := by
  by_cases none : find? place comment.toList = none
  · exact Nat.le_of_eq (by rw [take_of_none type none])
  · have room := take_length type none
    omega

theorem Piece.length_text_param (type name : String) :
    (param type name).text.length = name.length + 7 := by
  change ("@param ".toList ++ name.toList).length = name.length + 7
  have start : "@param ".toList.length = 7 := rfl
  rw [List.length_append, start, String.length_toList, Nat.add_comm]

theorem paramAt_length {text : List Char} {piece : Piece} {length : Nat}
    (found : paramAt text = some (piece, length)) :
    ∃ type name, piece = .param type name ∧
      piece.text.length + type.length + 2 ≤ length ∧ length ≤ text.length := by
  rw [paramAt] at found
  split at found
  · cases found
  next rest isCommand =>
    have command := commandAt_length isCommand
    have word : "param".toList.length = 5 := rfl
    split at found
    · cases found
    next type after isType =>
      have room := typeAt_length isType
      cases parted : Text.spanBlank after with
      | mk gap rest =>
          have whole := spanBlank_length parted
          rw [parted] at found
          dsimp only at found
          split at found
          · cases found
          next given =>
            rw [Bool.or_eq_true, not_or] at given
            have gapLength :=
              List.length_pos_iff.mpr fun isNil => given.1 (List.isEmpty_iff.mpr isNil)
            have parts : (rest.takeWhile Text.isWord ++ rest.dropWhile Text.isWord).length =
                rest.length := by rw [List.takeWhile_append_dropWhile]
            rw [List.length_append] at parts
            obtain ⟨pieceIs, lengthIs⟩ := Prod.mk.inj (Option.some.inj found)
            refine ⟨_, _, pieceIs.symm, ?_, by omega⟩
            rw [← pieceIs, ← lengthIs, Piece.length_text_param, String.length_ofList,
              String.length_ofList]
            omega

def paramTypes (comment : String) : List (String × String) :=
  (pieces comment).filterMap Piece.typing

def withoutParamTypes (comment : String) : String :=
  String.ofList ((pieces comment).flatMap Piece.text)

/-- The room that types take up among the arguments of a function. -/
def typeRoom : List (String × String) → Nat
  | [] => 0
  | (_, type) :: later => type.length + 1 + typeRoom later

theorem piecesFrom_length (text : List Char) : ∀ skip, skip ≤ text.length →
    let found := piecesFrom skip text
    (found.flatMap Piece.text).length + typeRoom (found.filterMap Piece.typing) +
      (found.filterMap Piece.typing).length + skip ≤ text.length := by
  induction text with
  | nil =>
      intro skip short
      simpa [piecesFrom, typeRoom] using short
  | cons c rest ih =>
      intro skip short
      rw [List.length_cons] at short ⊢
      cases skip with
      | succ left =>
          have later := ih left (by omega)
          simp only [piecesFrom] at later ⊢
          omega
      | zero =>
          rw [piecesFrom]
          rcases Option.eq_none_or_eq_some (paramAt (c :: rest)) with found | ⟨entry, found⟩
          · have later := ih 0 (Nat.zero_le _)
            have single : (Piece.char c).text.length = 1 := rfl
            rw [found]
            simp only [List.flatMap_cons, List.length_append, single, List.filterMap_cons,
              Piece.typing] at later ⊢
            omega
          · obtain ⟨piece, length⟩ := entry
            obtain ⟨type, name, rfl, room, within⟩ := paramAt_length found
            rw [List.length_cons] at within
            have later := ih (length - 1) (by omega)
            rw [found]
            simp only [List.flatMap_cons, List.length_append, List.filterMap_cons, Piece.typing,
              typeRoom, List.length_cons] at later ⊢
            omega

/-- A comment without types for parameters is made of its characters. -/
theorem piecesFrom_bare (text : List Char)
    (bare : (piecesFrom 0 text).filterMap Piece.typing = []) :
    (piecesFrom 0 text).flatMap Piece.text = text := by
  induction text with
  | nil => rfl
  | cons c rest ih =>
      rw [piecesFrom] at bare ⊢
      rcases Option.eq_none_or_eq_some (paramAt (c :: rest)) with found | ⟨entry, found⟩
      · rw [found] at bare ⊢
        rw [List.flatMap_cons]
        exact congrArg (c :: ·) (ih bare)
      · obtain ⟨piece, length⟩ := entry
        obtain ⟨type, name, rfl, -⟩ := paramAt_length found
        rw [found] at bare
        cases bare

theorem length_withoutParamTypes (comment : String) :
    (withoutParamTypes comment).length + typeRoom (paramTypes comment) +
      (paramTypes comment).length ≤ comment.length := by
  have room := piecesFrom_length comment.toList 0 (Nat.zero_le _)
  rw [withoutParamTypes, String.length_ofList, ← String.length_toList]
  exact room

theorem withoutParamTypes_of_nil (comment : String) (noParam : paramTypes comment = []) :
    withoutParamTypes comment = comment := by
  rw [withoutParamTypes, pieces, piecesFrom_bare _ noParam, String.ofList_toList]

end Annotation

theorem Doc.length_around (doc : Doc) :
    doc.before.length + doc.behind.length = doc.text.length + 1 := by
  have newline : "\n".length = 1 := rfl
  have space : " ".length = 1 := rfl
  rw [Doc.before, Doc.behind]
  cases doc.isInline
  · simp [String.length_append, newline]
  · simp [String.length_append, space, Nat.add_comm]

namespace Property

/-- The comment gives no type. -/
def Bare (p : Property) : Prop :=
  Annotation.find? .anywhere p.doc.text.toList = none

instance (p : Property) : Decidable p.Bare :=
  inferInstanceAs (Decidable (_ = none))

def framing (p : Property) : String :=
  p.remark ++ "Q_PROPERTY(" ++ " " ++ p.name ++ " READ dummyGetter_" ++ p.name ++ "_ignore)"

theorem length_text (p : Property) :
    p.text.length = p.doc.text.length + p.type.length + p.framing.length + 1 := by
  have around := p.doc.length_around
  simp only [text, framing, String.length_append]
  omega

theorem settle_of_bare (p : Property) (bare : p.Bare) : p.settle = p := by
  rw [settle, Annotation.take_of_none p.type bare]

theorem length_text_settle_lt (p : Property) (typed : ¬p.Bare) :
    p.settle.text.length < p.text.length := by
  have room := Annotation.take_length p.type typed
  have same : p.settle.framing = p.framing := rfl
  rw [length_text, length_text, same]
  simp only [settle]
  omega

end Property

namespace Function

/-- A type is longer by itself and a space than no type. -/
theorem length_text_typed (arg : Argument) (type : String) :
    (Argument.text { arg with type }).length ≤ arg.text.length + (type.length + 1) := by
  have space : " ".length = 1 := rfl
  have empty : "".length = 0 := rfl
  rw [Argument.text, Argument.text]
  cases arg.isSpread
  · simp only [Bool.false_eq_true, if_false, String.length_append]
    by_cases noType : type = "" <;> simp only [noType, if_true, if_false, String.length_append] <;>
      omega
  · simp only [if_true]
    omega

theorem setType_length {name type : String} {args typed : List Argument}
    (found : setType name type args = some typed) :
    typed.length = args.length ∧
      (typed.flatMap fun arg => arg.text.toList).length ≤
        (args.flatMap fun arg => arg.text.toList).length + (type.length + 1) := by
  induction args generalizing typed with
  | nil => cases found
  | cons arg later ih =>
      rw [setType] at found
      split at found
      · obtain rfl := Option.some.inj found
        have longer := length_text_typed arg type
        simp only [List.length_cons, List.flatMap_cons, List.length_append, String.length_toList,
          true_and]
        omega
      · obtain ⟨rest, isRest, rfl⟩ := Option.map_eq_some_iff.mp found
        obtain ⟨count, longer⟩ := ih isRest
        simp only [List.length_cons, List.flatMap_cons, List.length_append, count, true_and]
        omega

theorem setTypes_length (function : String) (typings : List (String × String)) :
    ∀ args : List Argument,
      let typed := (setTypes function typings args).1
      typed.length = args.length ∧
        (typed.flatMap fun arg => arg.text.toList).length ≤
          (args.flatMap fun arg => arg.text.toList).length + Annotation.typeRoom typings := by
  induction typings with
  | nil => exact fun args => ⟨rfl, Nat.le_refl _⟩
  | cons typing later ih =>
      intro args
      obtain ⟨name, type⟩ := typing
      dsimp only
      rw [setTypes, Annotation.typeRoom]
      split
      next typed found =>
        obtain ⟨count, longer⟩ := setType_length found
        obtain ⟨laterCount, laterLonger⟩ := ih typed
        exact ⟨laterCount.trans count, by omega⟩
      next =>
        obtain ⟨laterCount, laterLonger⟩ := ih args
        exact ⟨laterCount, by dsimp only; omega⟩

theorem length_listText_setTypes (function : String) (typings : List (String × String))
    (args : List Argument) :
    (Argument.listText (setTypes function typings args).1).length ≤
      (Argument.listText args).length + Annotation.typeRoom typings := by
  obtain ⟨count, longer⟩ := setTypes_length function typings args
  simp only [Argument.listText, Text.length_intercalate, List.flatMap_map, List.length_map, count]
  omega

def framing (f : Function) : String :=
  " " ++ f.name ++ "(" ++ ");"

theorem length_text (f : Function) :
    f.text.length = f.doc.text.length + f.type.length + (Argument.listText f.args).length +
      f.framing.length + 1 := by
  have around := f.doc.length_around
  simp only [text, framing, String.length_append]
  omega

open Annotation (paramTypes take_of_none withoutParamTypes withoutParamTypes_of_nil)

/-- The comment gives no type, neither to a parameter nor to the result. -/
def Bare (f : Function) : Prop :=
  paramTypes f.doc.text = [] ∧ Annotation.find? .result f.doc.text.toList = none

instance (f : Function) : Decidable f.Bare :=
  inferInstanceAs (Decidable (_ ∧ _))

theorem settle_eq (f : Function) :
    f.settle =
      let comment := withoutParamTypes f.doc.text
      let result := Annotation.take .result comment f.type
      let typed := setTypes f.name (paramTypes f.doc.text) f.args
      ({ f with type := result.2, args := typed.1, doc := { f.doc with text := result.1 } },
        typed.2) := by
  simp only [settle, withoutParamTypes, paramTypes]

theorem settle_of_bare (f : Function) (bare : f.Bare) : f.settle = (f, []) := by
  obtain ⟨noParam, noResult⟩ := bare
  rw [settle_eq, withoutParamTypes_of_nil _ noParam, noParam]
  dsimp only
  rw [take_of_none _ noResult]
  rfl

/-- Where a type moves, the comment loses more than the declaration gains. -/
theorem length_text_settle_lt (f : Function) (typed : ¬f.Bare) :
    f.settle.1.text.length < f.text.length := by
  have comment := Annotation.length_withoutParamTypes f.doc.text
  have args := length_listText_setTypes f.name (paramTypes f.doc.text) f.args
  rw [length_text, length_text, settle_eq]
  dsimp only [framing]
  by_cases noParam : paramTypes f.doc.text = []
  · have whole := withoutParamTypes_of_nil f.doc.text noParam
    rw [whole] at comment ⊢
    have moved := Annotation.take_length f.type fun noResult => typed ⟨noParam, noResult⟩
    omega
  · have some := List.length_pos_iff.mpr noParam
    have moved := Annotation.take_length_le .result (withoutParamTypes f.doc.text) f.type
    omega

end Function

end QmlDoc
