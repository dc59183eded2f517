import Mathlib.Data.List.TakeWhile
import QmlDoc.Proofs.Words
import QmlDoc.Text.Basic

set_option autoImplicit false

namespace QmlDoc.Text

/-- The text consists of `before`, of a whole line, and of `behind`, and `idx` is a place on that
line. -/
structure LineAround (text : List Char) (idx : Nat) (before line behind : List Char) : Prop where
  whole : text = before ++ (line ++ behind)
  starts : ∀ c, before.getLast? = some c → c = '\n'
  unbroken : '\n' ∉ line
  ends : ∀ c, behind.head? = some c → c = '\n'
  first : before.length ≤ idx
  last : idx < before.length + line.length

/-- The excerpt shows the line as a whole, perhaps below the newline before it, and on the next
line a mark behind as many dashes as `column` says. -/
def ShowsLine (excerpt line : List Char) (column : Nat) : Prop :=
  ∃ lead, (lead = [] ∨ lead = ['\n']) ∧
    excerpt = lead ++ line ++ '\n' :: List.replicate column '-' ++ ['^']

theorem newline_of_head?_dropWhile {text : List Char} :
    ∀ c, (text.dropWhile (· ≠ '\n')).head? = some c → c = '\n' := by
  intro c first
  have stops := List.head?_dropWhile_not (· ≠ '\n') text
  rw [first] at stops
  simpa using stops

/-- What stands before a place is the head of its line, and before that a newline. -/
theorem take_eq_append_lineHead (text : List Char) (idx : Nat) :
    text.take idx =
      ((text.take idx).reverse.dropWhile (· ≠ '\n')).reverse ++ lineHead text idx := by
  rw [lineHead, ← List.reverse_append, List.takeWhile_append_dropWhile, List.reverse_reverse]

theorem not_mem_lineHead (text : List Char) (idx : Nat) : '\n' ∉ lineHead text idx := by
  rw [lineHead, List.mem_reverse]
  intro member
  simpa using List.mem_takeWhile_imp member

theorem exists_lineAround {text : List Char} {idx : Nat} {c : Char}
    (present : text[idx]? = some c) (inLine : c ≠ '\n') :
    ∃ before line behind, LineAround text idx before line behind := by
  have parts := take_eq_append_lineHead text idx
  have size := congrArg List.length parts
  obtain ⟨inside, isChar⟩ := List.getElem?_eq_some_iff.mp present
  rw [List.length_append, List.length_take, Nat.min_eq_left (by omega)] at size
  refine ⟨((text.take idx).reverse.dropWhile (· ≠ '\n')).reverse,
    lineHead text idx ++ (text.drop idx).takeWhile (· ≠ '\n'),
    (text.drop idx).dropWhile (· ≠ '\n'), ?_, ?_, ?_, newline_of_head?_dropWhile, ?_, ?_⟩
  · rw [List.append_assoc, List.takeWhile_append_dropWhile, ← List.append_assoc, ← parts,
      List.take_append_drop]
  · intro d isLast
    rw [List.getLast?_reverse] at isLast
    exact newline_of_head?_dropWhile d isLast
  · rw [List.mem_append, not_or]
    refine ⟨not_mem_lineHead text idx, fun member => ?_⟩
    simpa using List.mem_takeWhile_imp member
  · omega
  · rw [List.drop_eq_getElem_cons inside, isChar,
      List.takeWhile_cons_of_pos (by simpa using inLine), List.length_append, List.length_cons]
    omega

namespace LineAround

variable {text before line behind : List Char} {idx : Nat}

/-- Up to the place, the text holds what is before the line and a part of the line. -/
theorem take_idx (around : LineAround text idx before line behind) :
    text.take idx = before ++ line.take (idx - before.length) := by
  have first := around.first
  have last := around.last
  rw [around.whole, List.take_append, List.take_of_length_le first, List.take_append,
    show idx - before.length - line.length = 0 by omega, List.take_zero, List.append_nil]

theorem drop_idx (around : LineAround text idx before line behind) :
    text.drop idx = line.drop (idx - before.length) ++ behind := by
  have first := around.first
  have last := around.last
  rw [around.whole, List.drop_append, List.drop_eq_nil_of_le first, List.nil_append,
    List.drop_append, show idx - before.length - line.length = 0 by omega, List.drop_zero]

theorem lineHead_eq (around : LineAround text idx before line behind) :
    lineHead text idx = line.take (idx - before.length) := by
  have unbroken : '\n' ∉ (line.take (idx - before.length)).reverse := fun member =>
    around.unbroken (List.mem_of_mem_take (List.mem_reverse.mp member))
  have stops : before.reverse.takeWhile (· ≠ '\n') = [] := by
    cases backwards : before.reverse with
    | nil => rfl
    | cons c earlier =>
        have isNewline := around.starts c (by rw [List.getLast?_eq_head?_reverse, backwards]; rfl)
        rw [isNewline]
        rfl
  rw [lineHead, around.take_idx, List.reverse_append, takeWhile_ne_append _ _ _ unbroken, stops,
    List.append_nil, List.reverse_reverse]

theorem length_lineHead (around : LineAround text idx before line behind) :
    (lineHead text idx).length = idx - before.length := by
  have last := around.last
  rw [around.lineHead_eq, List.length_take]
  omega

theorem takeWhile_drop_idx (around : LineAround text idx before line behind) :
    (text.drop idx).takeWhile (· ≠ '\n') = line.drop (idx - before.length) := by
  have unbroken : '\n' ∉ line.drop (idx - before.length) := fun member =>
    around.unbroken (List.mem_of_mem_drop member)
  rw [around.drop_idx, takeWhile_ne_append _ _ _ unbroken]
  cases ahead : behind with
  | nil => exact List.append_nil _
  | cons c later =>
      have isNewline := around.ends c (by rw [ahead]; rfl)
      rw [isNewline]
      exact List.append_nil _

/-- There is one line around a place. -/
theorem unique (around : LineAround text idx before line behind) {before' line' behind' : List Char}
    (other : LineAround text idx before' line' behind') :
    before' = before ∧ line' = line ∧ behind' = behind := by
  have wholes : before' ++ (line' ++ behind') = before ++ (line ++ behind) :=
    other.whole.symm.trans around.whole
  have sameStart : before'.length = before.length := by
    have here := around.length_lineHead
    have there := other.length_lineHead
    have first := around.first
    have first' := other.first
    omega
  obtain ⟨isBefore, remains⟩ := List.append_inj wholes sameStart
  have sameLength : line'.length = line.length := by
    have tails := other.takeWhile_drop_idx.symm.trans around.takeWhile_drop_idx
    have sizes := congrArg List.length tails
    have last := around.last
    have last' := other.last
    simp only [List.length_drop] at sizes
    omega
  exact ⟨isBefore, List.append_inj remains sameLength⟩

theorem row_eq (around : LineAround text idx before line behind) :
    row text idx = before.count '\n' + 1 := by
  have unbroken : '\n' ∉ line.take (idx - before.length) := fun member =>
    around.unbroken (List.mem_of_mem_take member)
  rw [row, around.take_idx, List.count_append, List.count_eq_zero.mpr unbroken, Nat.add_zero]

theorem line_ne_nil (around : LineAround text idx before line behind) : line ≠ [] := by
  rintro rfl
  have first := around.first
  have last := around.last
  rw [List.length_nil] at last
  omega

theorem contains_newline (around : LineAround text idx before line behind) :
    (text.drop idx).contains '\n' = true ↔ behind ≠ [] := by
  have unbroken : '\n' ∉ line.drop (idx - before.length) := fun member =>
    around.unbroken (List.mem_of_mem_drop member)
  rw [around.drop_idx, List.contains_iff_mem, List.mem_append, or_iff_right unbroken]
  constructor
  · rintro member rfl
    cases member
  · intro more
    obtain ⟨c, later, rfl⟩ := List.exists_cons_of_ne_nil more
    rw [around.ends c rfl]
    exact List.mem_cons_self

/-- An excerpt starts with the newline before the line, unless the text starts with the line. -/
theorem drop_before (around : LineAround text idx before line behind) (shown : List Char) :
    (before ++ shown).drop (before.length - 1) =
      (if before = [] then [] else ['\n']) ++ shown := by
  rcases List.eq_nil_or_concat before with rfl | ⟨earlier, c, rfl⟩
  · rfl
  · rw [List.concat_eq_append] at around ⊢
    have isNewline := around.starts c List.getLast?_concat
    simp [isNewline]

theorem lineAt_eq (around : LineAround text idx before line behind) :
    lineAt text idx = (if before = [] then [] else ['\n']) ++
      if behind = [] then line.dropLast else line := by
  have first := around.first
  have last := around.last
  have skipped : (text.take idx).length - (lineHead text idx).length - 1 = before.length - 1 := by
    rw [around.length_lineHead, around.take_idx, List.length_append, List.length_take]
    omega
  rw [lineAt, skipped]
  by_cases atEnd : behind = []
  · rw [if_neg (fun found => around.contains_newline.mp found atEnd), if_pos atEnd, around.whole,
      atEnd, List.append_nil, List.dropLast_append_of_ne_nil around.line_ne_nil,
      around.drop_before]
  · rw [if_pos (around.contains_newline.mpr atEnd), if_neg atEnd, around.take_idx,
      around.takeWhile_drop_idx, List.append_assoc, List.take_append_drop, around.drop_before]

theorem excerptAt_eq (around : LineAround text idx before line behind) :
    excerptAt text idx =
      (if before = [] then [] else ['\n']) ++ (if behind = [] then line.dropLast else line) ++
        '\n' :: List.replicate (idx - before.length) '-' ++ ['^'] := by
  rw [excerptAt, around.lineAt_eq, column, Nat.add_sub_cancel, around.length_lineHead]

/-- Without its last character the line is not shown, however the excerpt is cut. -/
theorem showsLine_iff (around : LineAround text idx before line behind) :
    ShowsLine (excerptAt text idx) line (idx - before.length) ↔ behind ≠ [] := by
  rw [around.excerptAt_eq]
  constructor
  · rintro ⟨lead, leads, same⟩ atEnd
    rw [if_pos atEnd] at same
    have cut := List.append_cancel_right (List.append_cancel_right same)
    have sizes := congrArg List.length cut
    have nonempty := List.length_pos_iff.mpr around.line_ne_nil
    simp only [List.length_append, List.length_dropLast] at sizes
    by_cases atStart : before = []
    · rw [if_pos atStart, List.length_nil] at sizes
      omega
    -- A newline in front makes up for the missing character, but it would be on the line.
    · rw [if_neg atStart] at cut sizes
      rcases leads with rfl | rfl
      · refine around.unbroken ?_
        rw [← List.nil_append line, ← cut]
        exact List.mem_append_left _ (List.mem_singleton.mpr rfl)
      · omega
  · intro more
    rw [if_neg more]
    refine ⟨_, ?_, rfl⟩
    split
    · exact Or.inl rfl
    · exact Or.inr rfl

end LineAround

/-- Around every place that holds no newline there is exactly one line. The row counts the newlines
before the place. The excerpt consists of the newline before the line, if there is one, of the
line, and of a mark below the place; but if the text ends with the line, its last character is
missing. So the line is shown as a whole exactly if a newline follows it. -/
theorem excerptAt_line (text : List Char) (idx : Nat) (c : Char) (present : text[idx]? = some c)
    (inLine : c ≠ '\n') :
    ∃ before line behind, LineAround text idx before line behind ∧
      (∀ before' line' behind', LineAround text idx before' line' behind' →
        before' = before ∧ line' = line ∧ behind' = behind) ∧
      row text idx = before.count '\n' + 1 ∧ before.count '\n' = (text.take idx).count '\n' ∧
      excerptAt text idx =
        (if before = [] then [] else ['\n']) ++ (if behind = [] then line.dropLast else line) ++
          '\n' :: List.replicate (idx - before.length) '-' ++ ['^'] ∧
      (ShowsLine (excerptAt text idx) line (idx - before.length) ↔ behind ≠ []) := by
  obtain ⟨before, line, behind, around⟩ := exists_lineAround present inLine
  refine ⟨before, line, behind, around, fun _ _ _ => around.unique, around.row_eq, ?_,
    around.excerptAt_eq, around.showsLine_iff⟩
  exact Nat.succ.inj around.row_eq.symm

/-- A line inside of a text, seen from the keyword on it. -/
theorem excerptAt_line_inside :
    let text := "Item \x7b\n    property int\n\x7d\n".toList
    (text[11]? = some 'p' ∧ 'p' ≠ '\n') ∧ row text 11 = 2 ∧
      excerptAt text 11 = "\n    property int\n----^".toList ∧
      ShowsLine (excerptAt text 11) "    property int".toList 4 := by
  intro text
  have present : text[11]? = some 'p' ∧ 'p' ≠ '\n' := by decide
  obtain ⟨before, line, behind, -, unique, isRow, -, isExcerpt, shows⟩ :=
    excerptAt_line text 11 'p' present.1 present.2
  have around : LineAround text 11 "Item \x7b\n".toList "    property int".toList
      "\n\x7d\n".toList :=
    ⟨by decide, by rintro c ⟨⟩; rfl, by decide, by rintro c ⟨⟩; rfl, by decide, by decide⟩
  obtain ⟨rfl, rfl, rfl⟩ := unique _ _ _ around
  exact ⟨present, isRow, isExcerpt, shows.mpr (by decide)⟩

/-- The last line of a text that ends without a newline is cut short. -/
theorem excerptAt_line_unfinished :
    let text := "Item \x7b\n\x7d\nfoo".toList
    LineAround text 9 "Item \x7b\n\x7d\n".toList "foo".toList [] ∧
      excerptAt text 9 = "\nfo\n^".toList ∧ ¬ShowsLine (excerptAt text 9) "foo".toList 0 := by
  intro text
  have around : LineAround text 9 "Item \x7b\n\x7d\n".toList "foo".toList [] :=
    ⟨by decide, by rintro c ⟨⟩; rfl, by decide, nofun, by decide, by decide⟩
  exact ⟨around, by decide, fun shows => around.showsLine_iff.mp shows rfl⟩

end QmlDoc.Text
