import QmlDoc.Text.Basic

set_option autoImplicit false

namespace QmlDoc.Text

/-- A word: some characters, none of them white space. -/
def Solid (word : List Char) : Prop :=
  word ≠ [] ∧ ∀ c ∈ word, isBlank c = false

instance (word : List Char) : Decidable (Solid word) :=
  decidable_of_iff ((!word.isEmpty && word.all (!isBlank ·)) = true) (by simp [Solid])

theorem words_blank (c : Char) (rest : List Char) (isSpace : isBlank c = true) :
    words (c :: rest) = words rest :=
  if_pos isSpace

theorem words_cons (c : Char) (rest : List Char) (solid : isBlank c = false) :
    words (c :: rest) =
      match rest, words rest with
      | next :: _, word :: later =>
          if isBlank next then [c] :: word :: later else (c :: word) :: later
      | _, later => [c] :: later :=
  if_neg (Bool.eq_false_iff.mp solid)

/-- What stands behind a word: nothing, or white space first. -/
def EndsWord (tail : List Char) : Prop :=
  ∀ c, tail.head? = some c → isBlank c = true

theorem endsWord_cons {c : Char} (isSpace : isBlank c = true) (tail : List Char) :
    EndsWord (c :: tail) := by
  rintro _ ⟨⟩
  exact isSpace

theorem endsWord_of_blank {tail : List Char} (blank : ∀ c ∈ tail, isBlank c = true) :
    EndsWord tail :=
  fun c first => blank c (List.mem_of_head? first)

/-- White space ends a run of other characters. -/
theorem EndsWord.stops {p : Char → Bool} {tail : List Char} (ends : EndsWord tail)
    (solid : ∀ {c}, isBlank c = true → p c = false) : tail.takeWhile p = [] := by
  cases tail with
  | nil => rfl
  | cons c tail => rw [List.takeWhile_cons_of_neg (by simp [solid (ends c rfl)])]

theorem not_isBlank_of_isBlank {c : Char} (blank : isBlank c = true) : (!isBlank c) = false := by
  rw [blank]
  rfl

/-- A character before white space ends a word. -/
theorem words_last (c : Char) (tail : List Char) (solid : isBlank c = false)
    (ends : EndsWord tail) : words (c :: tail) = [c] :: words tail := by
  rw [words_cons c _ solid]
  cases tail with
  | nil => rfl
  | cons blank tail =>
      have isSpace : isBlank blank = true := ends blank rfl
      cases words (blank :: tail) <;> simp [isSpace]

/-- A character before another one belongs to the same word. -/
theorem words_inner (c next : Char) (rest word : List Char) (later : List (List Char))
    (solid : isBlank c = false) (nextSolid : isBlank next = false)
    (shorter : words (next :: rest) = word :: later) :
    words (c :: next :: rest) = (c :: word) :: later := by
  rw [words_cons c _ solid, shorter]
  simp [nextSolid]

theorem words_front (word tail : List Char) (solid : Solid word) (ends : EndsWord tail) :
    words (word ++ tail) = word :: words tail := by
  obtain ⟨nonempty, solid⟩ := solid
  induction word with
  | nil => exact absurd rfl nonempty
  | cons c later ih =>
      have first : isBlank c = false := solid c (by simp)
      cases later with
      | nil => exact words_last c tail first ends
      | cons next later =>
          have shorter := ih (by simp) fun d member => solid d (by simp [member])
          exact words_inner c next _ _ _ first (solid next (by simp)) shorter

theorem words_gap (gap rest : List Char) (blank : ∀ c ∈ gap, isBlank c = true) :
    words (gap ++ rest) = words rest := by
  induction gap with
  | nil => rfl
  | cons c gap ih =>
      rw [List.forall_mem_cons] at blank
      rw [List.cons_append, words_blank c _ blank.1, ih blank.2]

theorem Solid.stops {word : List Char} (solid : Solid word) (more : List Char) :
    (word ++ more).takeWhile isBlank = [] := by
  obtain ⟨c, rest, rfl⟩ := List.exists_cons_of_ne_nil solid.1
  rw [List.cons_append, List.takeWhile_cons_of_neg]
  simp [solid.2 c List.mem_cons_self]

/-- Words that are joined by spaces are found again. -/
theorem words_intercalate (texts : List String) (solid : ∀ text ∈ texts, Solid text.toList) :
    (words (" ".intercalate texts).toList).map String.ofList = texts := by
  induction texts with
  | nil => rfl
  | cons text texts ih =>
      have first : Solid text.toList := solid text (by simp)
      have shorter := ih fun each member => solid each (by simp [member])
      cases texts with
      | nil =>
          have alone := words_front _ [] first (endsWord_of_blank (by simp))
          rw [List.append_nil] at alone
          simp [alone, words]
      | cons next later =>
          have apart : (" ".intercalate (text :: next :: later)).toList =
              text.toList ++ ' ' :: (" ".intercalate (next :: later)).toList := by
            simp [String.intercalate_cons_cons]
          rw [apart, words_front _ _ first (endsWord_cons (by decide) _),
            words_blank ' ' _ (by decide), List.map_cons, shorter, String.ofList_toList]

theorem ne_of_absent {sep : Char} {text : List Char} (absent : sep ∉ text) :
    ∀ c ∈ text, (c ≠ sep : Bool) = true := by
  intro c member
  rw [decide_eq_true_eq]
  rintro rfl
  exact absent member

theorem takeWhile_ne_append (sep : Char) (front rest : List Char) (absent : sep ∉ front) :
    (front ++ rest).takeWhile (· ≠ sep) = front ++ rest.takeWhile (· ≠ sep) :=
  List.takeWhile_append_of_pos (ne_of_absent absent)

theorem splitOn_front (sep : Char) (text : List Char) :
    ∃ later, text.splitOn sep = text.takeWhile (· ≠ sep) :: later := by
  induction text with
  | nil => exact ⟨[], rfl⟩
  | cons c rest ih =>
      rw [List.splitOn_cons_eq_if_modifyHead]
      by_cases isSep : c = sep
      · exact ⟨rest.splitOn sep, by simp [isSep]⟩
      · obtain ⟨later, pieces⟩ := ih
        exact ⟨later, by simp [isSep, pieces]⟩

theorem splitOn_cons (sep c : Char) (rest : List Char) (other : c ≠ sep) :
    ∃ piece later, rest.splitOn sep = piece :: later ∧
      (c :: rest).splitOn sep = (c :: piece) :: later := by
  obtain ⟨piece, later, pieces⟩ := List.exists_cons_of_ne_nil (List.splitOn_ne_nil sep rest)
  refine ⟨piece, later, pieces, ?_⟩
  rw [List.splitOn_cons_eq_if_modifyHead, if_neg (by simpa using other), pieces]
  rfl

theorem not_mem_of_mem_splitOn (sep : Char) (text : List Char) :
    ∀ piece ∈ text.splitOn sep, sep ∉ piece := by
  induction text with
  | nil => simp
  | cons c rest ih =>
      by_cases isSep : c = sep
      · simpa [List.splitOn_cons_eq_if_modifyHead, isSep] using ih
      · obtain ⟨first, later, pieces, longer⟩ := splitOn_cons sep c rest isSep
        rw [pieces] at ih
        rw [longer]
        simpa [Ne.symm isSep] using ih

theorem mem_iff_mem_splitOn (sep : Char) (text : List Char) :
    ∀ c, c ≠ sep → (c ∈ text ↔ ∃ piece ∈ text.splitOn sep, c ∈ piece) := by
  intro c other
  induction text with
  | nil => simp
  | cons d rest ih =>
      by_cases isSep : d = sep
      · rw [List.mem_cons, ih, List.splitOn_cons_eq_if_modifyHead]
        simp [isSep, other]
      · obtain ⟨piece, later, pieces, longer⟩ := splitOn_cons sep d rest isSep
        rw [List.mem_cons, ih, pieces, longer]
        simp [or_assoc]

theorem length_intercalate (sep : String) (texts : List String) :
    (sep.intercalate texts).length =
      (texts.flatMap String.toList).length + sep.length * (texts.length - 1) := by
  induction texts with
  | nil => rfl
  | cons text later ih =>
      cases later with
      | nil => simp [String.length_toList]
      | cons next later =>
          rw [String.intercalate_cons_cons, String.length_append, String.length_append, ih]
          simp only [List.flatMap_cons, List.length_append, String.length_toList, List.length_cons,
            Nat.add_sub_cancel]
          rw [Nat.mul_add_one]
          omega

theorem Solid.not_mem {word : List Char} (solid : Solid word) {blank : Char}
    (isSpace : isBlank blank = true) : blank ∉ word := by
  intro member
  rw [solid.2 blank member] at isSpace
  exact Bool.false_ne_true isSpace

theorem trim_of_solid (word : List Char) (solid : Solid word) : trim word = word := by
  have keep (text : List Char) (same : ∀ c ∈ text, isBlank c = false) :
      text.dropWhile isBlank = text := by
    cases text with
    | nil => rfl
    | cons c rest => simp [same c (by simp)]
  rw [trim, keep word solid.2,
    keep word.reverse (fun c member => solid.2 c (by simpa using member)),
    List.reverse_reverse]

end QmlDoc.Text
