import QmlDoc.ModuleFile
import QmlDoc.Proofs.TypeMarks

set_option autoImplicit false

namespace QmlDoc

namespace Text

/-- Some characters, all of one class. -/
def Run (p : Char → Bool) (run : List Char) : Prop :=
  run ≠ [] ∧ ∀ c ∈ run, p c = true

instance (p : Char → Bool) (run : List Char) : Decidable (Run p run) :=
  decidable_of_iff ((!run.isEmpty && run.all p) = true) (by simp [Run])

theorem isDecimal_of_isBlank {c : Char} (blank : isBlank c = true) : isDecimal c = false :=
  forall_blank (P := fun c => isDecimal c = false) (by decide +kernel) blank

end Text

namespace ModuleFile

theorem run1_run {p : Char → Bool} {run more : List Char} (isRun : Text.Run p run)
    (stops : more.takeWhile p = []) : run1 p (run ++ more) = some (String.ofList run, more) := by
  have whole : (run ++ more).takeWhile p = run := by
    rw [List.takeWhile_append_of_pos isRun.2, stops, List.append_nil]
  have behind : (run ++ more).dropWhile p = more := by
    rw [List.dropWhile_append_of_pos isRun.2, Text.dropWhile_of_stops stops]
  rw [run1, whole, behind, if_neg (by simpa using isRun.1)]

theorem run1_parts {p : Char → Bool} {text rest : List Char} {word : String}
    (read : run1 p text = some (word, rest)) :
    text = word.toList ++ rest ∧ Text.Run p word.toList := by
  obtain ⟨nonempty, ⟨⟩⟩ := Option.ite_none_left_eq_some.mp read
  rw [String.toList_ofList]
  exact ⟨List.takeWhile_append_dropWhile.symm, by simpa using nonempty,
    fun c => List.mem_takeWhile_imp⟩

/-- The text goes on with white space up to the end of a line. -/
structure EndsLine (text trail rest : List Char) : Prop where
  parts : text = trail ++ rest
  blank : ∀ c ∈ trail, Text.isBlank c = true
  atEnd : ∀ c, rest.head? = some c → c = '\n'

/-- A line can end inside of the white space only, unless nothing else follows. -/
theorem EndsLine.inGap {text trail rest : List Char} (ends : EndsLine text trail rest)
    (more : text.dropWhile Text.isBlank ≠ []) :
    ∃ behind, text.takeWhile Text.isBlank = trail ++ '\n' :: behind := by
  obtain ⟨rfl, blank, atEnd⟩ := ends
  rw [List.dropWhile_append_of_pos blank] at more
  cases rest with
  | nil => exact absurd rfl more
  | cons c rest =>
      obtain rfl := atEnd c rfl
      refine ⟨rest.takeWhile Text.isBlank, ?_⟩
      rw [List.takeWhile_append_of_pos blank, List.takeWhile_cons_of_pos (by decide)]

/-- The rest of the first line is white space. -/
theorem EndsLine.blank_front {text trail rest : List Char} (ends : EndsLine text trail rest) :
    ∀ c ∈ text.takeWhile (· ≠ '\n'), Text.isBlank c = true := by
  obtain ⟨rfl, blank, atEnd⟩ := ends
  have stops : rest.takeWhile (· ≠ '\n') = [] := by
    cases rest with
    | nil => rfl
    | cons c rest => rw [List.takeWhile_cons_of_neg (by simp [atEnd c rfl])]
  intro c member
  rw [List.takeWhile_append] at member
  split at member
  · rw [stops, List.append_nil] at member
    exact blank c member
  · exact blank c ((List.takeWhile_prefix _).subset member)

theorem exists_last {gap : List Char} (newline : '\n' ∈ gap) :
    ∃ front back, gap = front ++ '\n' :: back ∧ '\n' ∉ back ∧
      (gap.reverse.takeWhile (· ≠ '\n')).reverse = back := by
  obtain ⟨back, front, reversed, last⟩ := List.eq_append_cons_of_mem (List.mem_reverse.mpr newline)
  refine ⟨front.reverse, back.reverse, ?_, fun inside => last (List.mem_reverse.mp inside), ?_⟩
  · rw [← List.reverse_reverse gap, reversed]
    simp
  · rw [reversed, Text.takeWhile_ne_append '\n' back _ last,
      List.takeWhile_cons_of_neg (by simp), List.append_nil]

theorem last_longest {front back other behind : List Char}
    (same : front ++ '\n' :: back = other ++ '\n' :: behind) (last : '\n' ∉ back) :
    other.length ≤ front.length := by
  rcases List.append_eq_append_iff.mp same with ⟨between, isOther, parts⟩ | ⟨between, isFront, -⟩
  · cases between with
    | nil => simp [isOther]
    | cons c between =>
        obtain ⟨-, rfl⟩ := List.cons.inj parts
        simp at last
  · rw [isFront, List.length_append]
    omega

/-- Of several ends of a line the last one is found. -/
theorem lineEnd_longest {text rest : List Char} (found : lineEnd text = some rest) :
    ∃ trail, EndsLine text trail rest ∧
      ∀ other further, EndsLine text other further → other.length ≤ trail.length := by
  rw [lineEnd, Text.spanBlank] at found
  dsimp only at found
  split at found
  · rename_i noMore
    obtain rfl := Option.some.inj found
    rw [List.isEmpty_iff, List.dropWhile_eq_nil_iff] at noMore
    refine ⟨text, ⟨by simp, noMore, by simp⟩, fun other further ends => ?_⟩
    rw [ends.parts]
    simp
  · rename_i more
    obtain ⟨newline, isRest⟩ := Option.ite_none_right_eq_some.mp found
    obtain ⟨front, back, gap, last, isBack⟩ := exists_last (List.contains_iff_mem.mp newline)
    obtain rfl : '\n' :: back ++ text.dropWhile Text.isBlank = rest := by
      rw [← Option.some.inj isRest, isBack]
    have blank : ∀ c ∈ front ++ '\n' :: back, Text.isBlank c = true := by
      rw [← gap]
      exact fun c => List.mem_takeWhile_imp
    refine ⟨front, ⟨?_, fun c member => blank c (by simp [member]), by simp⟩, ?_⟩
    · calc text
        _ = text.takeWhile Text.isBlank ++ text.dropWhile Text.isBlank :=
            List.takeWhile_append_dropWhile.symm
        _ = _ := by rw [gap, List.append_assoc]
    · intro other further ends
      obtain ⟨behind, otherGap⟩ := ends.inGap (by simpa using more)
      exact last_longest (gap.symm.trans otherGap) last

theorem lineEnd_isSome {text trail rest : List Char} (ends : EndsLine text trail rest) :
    (lineEnd text).isSome = true := by
  rw [lineEnd, Text.spanBlank]
  dsimp only
  split
  · rfl
  · rename_i more
    obtain ⟨behind, gap⟩ := ends.inGap (by simpa using more)
    rw [gap]
    simp

theorem lineEnd_eq_some_iff (text rest : List Char) :
    lineEnd text = some rest ↔ ∃ trail, EndsLine text trail rest ∧
      ∀ other further, EndsLine text other further → other.length ≤ trail.length := by
  refine ⟨lineEnd_longest, fun ⟨trail, ends, longest⟩ => ?_⟩
  obtain ⟨further, found⟩ := Option.isSome_iff_exists.mp (lineEnd_isSome ends)
  obtain ⟨other, otherEnds, otherLongest⟩ := lineEnd_longest found
  have size := Nat.le_antisymm (longest other further otherEnds) (otherLongest trail rest ends)
  obtain ⟨-, rfl⟩ := List.append_inj (otherEnds.parts.symm.trans ends.parts) size
  exact found

section Entries

variable {α : Type} {spells : List Char → α → Prop}

/-- The characters `matched` spell an entry, and behind it white space up to the end of a line. -/
def Matches (spells : List Char → α → Prop) (matched : List Char) (entry : α)
    (behind : List Char) : Prop :=
  ∃ front trail, matched = front ++ trail ∧ spells front entry ∧
    EndsLine (trail ++ behind) trail behind

/-- No other match at the same place is longer. -/
structure Longest (spells : List Char → α → Prop) (matched : List Char) (entry : α)
    (behind : List Char) : Prop where
  fits : Matches spells matched entry behind
  longest : ∀ other each further, matched ++ behind = other ++ further →
    Matches spells other each further → other.length ≤ matched.length

/-- A line starts behind `previous`, the character before it, or at the start of the text. -/
def StartsLine (previous : Option Char) : Prop :=
  ∀ c, previous = some c → c = '\n'

/-- The entries in a text from left to right: each is the longest match at the first start of a
line, behind the entry before it, where there is one. -/
inductive FindsAll (spells : List Char → α → Prop) : Option Char → List Char → List α → Prop
  | done {previous : Option Char} : FindsAll spells previous [] []
  | pass {previous : Option Char} {c : Char} {rest : List Char} {entries : List α}
      (none : StartsLine previous → ∀ matched entry behind, c :: rest = matched ++ behind →
        ¬Matches spells matched entry behind)
      (later : FindsAll spells (some c) rest entries) : FindsAll spells previous (c :: rest) entries
  | take {previous : Option Char} {matched behind : List Char} {entry : α} {entries : List α}
      (starts : StartsLine previous) (here : Longest spells matched entry behind)
      (later : FindsAll spells matched.getLast? behind entries) :
      FindsAll spells previous (matched ++ behind) (entry :: entries)

/-- `read` finds what spells an entry, and nothing else, and goes on to the end of its line. -/
structure Reads (spells : List Char → α → Prop) (read : List Char → Option (α × List Char)) :
    Prop where
  nonempty : ∀ front entry, spells front entry → front ≠ []
  sound : ∀ text entry rest, read text = some (entry, rest) →
    ∃ front more, text = front ++ more ∧ spells front entry ∧ lineEnd more = some rest
  complete : ∀ front entry more, spells front entry → Text.EndsWord more →
    read (front ++ more) = (lineEnd more).map (entry, ·)

variable {read : List Char → Option (α × List Char)}

theorem EndsLine.endsWord {text trail rest : List Char} (ends : EndsLine text trail rest) :
    Text.EndsWord text := by
  obtain ⟨rfl, blank, atEnd⟩ := ends
  intro c first
  cases trail with
  | nil =>
      obtain rfl := atEnd c first
      decide
  | cons d trail =>
      obtain rfl := Option.some.inj first
      exact blank d List.mem_cons_self

theorem Reads.read_eq (reads : Reads spells read) {front trail behind : List Char} {entry : α}
    (isFront : spells front entry) (ends : EndsLine (trail ++ behind) trail behind) :
    read (front ++ trail ++ behind) = (lineEnd (trail ++ behind)).map (entry, ·) := by
  rw [List.append_assoc]
  exact reads.complete front entry _ isFront ends.endsWord

theorem Reads.matched_ne_nil (reads : Reads spells read) {matched behind : List Char} {entry : α}
    (fits : Matches spells matched entry behind) : matched ≠ [] := by
  obtain ⟨front, trail, rfl, isFront, -⟩ := fits
  simp [reads.nonempty front entry isFront]

/-- Where there is a match, its entry is read. -/
theorem Reads.isSome (reads : Reads spells read) {matched behind : List Char} {entry : α}
    (fits : Matches spells matched entry behind) :
    ∃ further, read (matched ++ behind) = some (entry, further) := by
  obtain ⟨front, trail, rfl, isFront, ends⟩ := fits
  obtain ⟨further, found⟩ := Option.isSome_iff_exists.mp (lineEnd_isSome ends)
  exact ⟨further, by rw [reads.read_eq isFront ends, found, Option.map_some]⟩

/-- The longest match ends where the line ends for the last time. -/
theorem Reads.longest_iff (reads : Reads spells read) {front trail behind : List Char} {entry : α}
    (isFront : spells front entry) (ends : EndsLine (trail ++ behind) trail behind) :
    Longest spells (front ++ trail) entry behind ↔ lineEnd (trail ++ behind) = some behind := by
  constructor
  · intro here
    refine (lineEnd_eq_some_iff _ _).mpr ⟨trail, ends, fun other further otherEnds => ?_⟩
    have parts : front ++ trail ++ behind = front ++ other ++ further := by
      rw [List.append_assoc, otherEnds.parts, List.append_assoc]
    have shorter := here.longest (front ++ other) entry further parts
      ⟨front, other, rfl, isFront, rfl, otherEnds.blank, otherEnds.atEnd⟩
    simpa using shorter
  · intro ended
    refine ⟨⟨front, trail, rfl, isFront, ends⟩, ?_⟩
    rintro _ other further parts ⟨otherFront, otherTrail, rfl, isOther, otherEnds⟩
    -- Whatever is read at this place ends before `behind`.
    have same := reads.read_eq isFront ends
    rw [parts, reads.read_eq isOther otherEnds, ended, Option.map_some] at same
    obtain ⟨rest, found, isRest⟩ := Option.map_eq_some_iff.mp same
    obtain rfl : rest = behind := (Prod.mk.inj isRest).2
    obtain ⟨longTrail, longEnds, longest⟩ := lineEnd_longest found
    have shorter := longest otherTrail further otherEnds
    have sizes := congrArg List.length parts
    have moreSizes := congrArg List.length longEnds.parts
    simp only [List.length_append] at sizes moreSizes ⊢
    omega

theorem Reads.eq_some_iff (reads : Reads spells read) (text : List Char) (entry : α)
    (behind : List Char) :
    read text = some (entry, behind) ↔
      ∃ matched, text = matched ++ behind ∧ Longest spells matched entry behind := by
  constructor
  · intro found
    obtain ⟨front, more, rfl, isFront, ended⟩ := reads.sound text entry behind found
    obtain ⟨trail, ends, longest⟩ := lineEnd_longest ended
    obtain rfl := ends.parts
    exact ⟨front ++ trail, (List.append_assoc _ _ _).symm,
      (reads.longest_iff isFront ends).mpr ended⟩
  · rintro ⟨matched, rfl, here⟩
    obtain ⟨front, trail, rfl, isFront, ends⟩ := here.fits
    rw [reads.read_eq isFront ends, (reads.longest_iff isFront ends).mp here, Option.map_some]

/-- What was read is passed over. -/
theorem entriesFrom_skip (read : List Char → Option (α × List Char)) (behind : List Char) :
    ∀ (c : Char) (passed : List Char),
      entriesFrom read (c = '\n') passed.length (passed ++ behind) =
        entriesFrom read ((c :: passed).getLast?.all (· = '\n')) 0 behind
  | c, [] => rfl
  | c, d :: passed => by
      have step : entriesFrom read (c = '\n') (d :: passed).length (d :: passed ++ behind) =
          entriesFrom read (d = '\n') passed.length (passed ++ behind) := by
        simp [entriesFrom]
      rw [step, entriesFrom_skip read behind d passed, List.getLast?_cons_cons]

theorem entriesFrom_take {read : List Char → Option (α × List Char)} {matched behind : List Char}
    {entry : α} (nonempty : matched ≠ [])
    (found : read (matched ++ behind) = some (entry, behind)) :
    entriesFrom read true 0 (matched ++ behind) =
      entry :: entriesFrom read (matched.getLast?.all (· = '\n')) 0 behind := by
  obtain ⟨c, passed, rfl⟩ := List.exists_cons_of_ne_nil nonempty
  rw [List.cons_append] at found
  rw [← entriesFrom_skip read behind c passed, List.cons_append, entriesFrom]
  simp [found]

theorem entriesFrom_pass {read : List Char → Option (α × List Char)} {lineStart : Bool} {c : Char}
    {rest : List Char} (none : lineStart = true → read (c :: rest) = none) :
    entriesFrom read lineStart 0 (c :: rest) = entriesFrom read (c = '\n') 0 rest := by
  rw [entriesFrom]
  cases lineStart with
  | false => simp
  | true => simp [none rfl]

theorem startsLine_iff (previous : Option Char) :
    StartsLine previous ↔ previous.all (· = '\n') = true := by
  cases previous <;> simp [StartsLine]

theorem FindsAll.eq_entriesFrom (reads : Reads spells read) {previous : Option Char}
    {text : List Char} {entries : List α} (finds : FindsAll spells previous text entries) :
    entries = entriesFrom read (previous.all (· = '\n')) 0 text := by
  induction finds with
  | done => rfl
  | @pass previous c rest entries none later ih =>
      rw [entriesFrom_pass, ih]
      · rfl
      · intro starts
        rw [Option.eq_none_iff_forall_ne_some]
        rintro ⟨entry, behind⟩ found
        obtain ⟨matched, parts, here⟩ := (reads.eq_some_iff _ _ _).mp found
        exact none ((startsLine_iff previous).mpr starts) matched entry behind parts here.fits
  | @take previous matched behind entry entries starts here later ih =>
      have found := (reads.eq_some_iff _ _ _).mpr ⟨matched, rfl, here⟩
      rw [(startsLine_iff previous).mp starts,
        entriesFrom_take (reads.matched_ne_nil here.fits) found, ih]

theorem exists_findsAll (reads : Reads spells read) (previous : Option Char) (text : List Char) :
    ∃ entries, FindsAll spells previous text entries := by
  induction size : text.length using Nat.strongRecOn generalizing previous text with
  | ind n ih =>
      cases text with
      | nil => exact ⟨[], .done⟩
      | cons c rest =>
          by_cases hit : StartsLine previous ∧
              ∃ entry behind, read (c :: rest) = some (entry, behind)
          · obtain ⟨starts, entry, behind, found⟩ := hit
            obtain ⟨matched, parts, here⟩ := (reads.eq_some_iff _ _ _).mp found
            have shorter : behind.length < n := by
              have positive := List.length_pos_iff.mpr (reads.matched_ne_nil here.fits)
              rw [parts, List.length_append] at size
              omega
            obtain ⟨entries, later⟩ := ih _ shorter matched.getLast? behind rfl
            rw [parts]
            exact ⟨entry :: entries, .take starts here later⟩
          · have shorter : rest.length < n := by
              rw [← size, List.length_cons]
              omega
            obtain ⟨entries, later⟩ := ih _ shorter (some c) rest rfl
            refine ⟨entries, .pass (fun starts matched entry behind parts fits => ?_) later⟩
            apply hit
            rw [parts]
            exact ⟨starts, entry, reads.isSome fits⟩

/-- The entries of a text are those that are read line by line. -/
theorem findsAll_iff (reads : Reads spells read) (text : List Char) (entries : List α) :
    FindsAll spells none text entries ↔ entries = entriesFrom read true 0 text := by
  refine ⟨FindsAll.eq_entriesFrom reads, ?_⟩
  rintro rfl
  obtain ⟨entries, finds⟩ := exists_findsAll reads none text
  have isAll := finds.eq_entriesFrom reads
  rw [Option.all_none] at isAll
  rwa [← isAll]

theorem FindsAll.spelled {previous : Option Char} {text : List Char} {entries : List α}
    (finds : FindsAll spells previous text entries) :
    ∀ entry ∈ entries, ∃ front, spells front entry := by
  induction finds with
  | done => exact fun entry member => absurd member List.not_mem_nil
  | pass _ _ ih => exact ih
  | take _ here _ ih =>
      obtain ⟨front, -, -, isFront, -⟩ := here.fits
      exact List.forall_mem_cons.mpr ⟨⟨front, isFront⟩, ih⟩

end Entries

def isModuleChar (c : Char) : Bool :=
  Text.isWord c || c = '.'

/-- The word `module` and the name of the module. -/
def SpellsModule (front : List Char) (name : String) : Prop :=
  ∃ gap, front = "module".toList ++ (gap ++ name.toList) ∧ Text.Run Text.isBlank gap ∧
    Text.Run isModuleChar name.toList

/-- The word `internal`, the name of a type and a path. -/
def InternalType.Spells (front : List Char) (entry : InternalType) : Prop :=
  ∃ gap between,
    front = "internal".toList ++ (gap ++ (entry.name.toList ++ (between ++ entry.path.toList))) ∧
      Text.Run Text.isBlank gap ∧ Text.Run Text.isWord entry.name.toList ∧
      Text.Run Text.isBlank between ∧ Text.Solid entry.path.toList

def IsVersion (version : List Char) : Prop :=
  ∃ numbers, numbers ≠ [] ∧ (∀ number ∈ numbers, Text.Run Text.isDecimal number) ∧
    version = ['.'].intercalate numbers

/-- The name of a type, a version and a path. -/
def ObjectType.Spells (front : List Char) (entry : ObjectType) : Prop :=
  ∃ gap between,
    front = entry.name.toList ++ (gap ++ (entry.version.toList ++ (between ++ entry.path.toList))) ∧
      Text.Run Text.isWord entry.name.toList ∧ Text.Run Text.isBlank gap ∧
      IsVersion entry.version.toList ∧ Text.Run Text.isBlank between ∧
      Text.Solid entry.path.toList

/-- White space ends a run of other characters. -/
theorem stops_of_run {p : Char → Bool} (solid : ∀ {c}, Text.isBlank c = true → p c = false)
    {gap : List Char} (isGap : Text.Run Text.isBlank gap) (more : List Char) :
    (gap ++ more).takeWhile p = [] := by
  obtain ⟨blank, gap, rfl⟩ := List.exists_cons_of_ne_nil isGap.1
  exact (Text.endsWord_cons (isGap.2 blank List.mem_cons_self) _).stops solid

/-- Characters of a word end white space. -/
theorem blank_stops {p : Char → Bool} (solid : ∀ {c}, Text.isBlank c = true → p c = false)
    {run : List Char} (isRun : Text.Run p run) (more : List Char) :
    (run ++ more).takeWhile Text.isBlank = [] := by
  obtain ⟨c, run, rfl⟩ := List.exists_cons_of_ne_nil isRun.1
  rw [List.cons_append, List.takeWhile_cons_of_neg]
  intro blank
  have other := solid blank
  rw [isRun.2 c List.mem_cons_self] at other
  cases other

theorem orDot_of_isBlank {p : Char → Bool} {c : Char} (blank : Text.isBlank c = true)
    (other : p c = false) : (p c || c = '.') = false := by
  have notDot : c ≠ '.' := by
    rintro rfl
    cases blank
  simp [other, notDot]

theorem isModuleChar_of_isBlank {c : Char} (blank : Text.isBlank c = true) :
    isModuleChar c = false :=
  orDot_of_isBlank blank (Text.isWord_of_isBlank blank)

theorem reads_module : Reads SpellsModule moduleAt where
  nonempty := by
    rintro front name ⟨gap, rfl, -⟩
    simp
  sound := by
    intro text name rest read
    simp only [moduleAt, Option.bind_eq_bind, Option.bind_eq_some_iff] at read
    obtain ⟨_, parted, ⟨gap, _⟩, isGap, ⟨_, more⟩, isName, _, ended, ⟨⟩⟩ := read
    obtain rfl := List.isPrefixOf?_eq_some_iff_append_eq.mp parted
    obtain ⟨rfl, gapRun⟩ := run1_parts isGap
    obtain ⟨rfl, nameRun⟩ := run1_parts isName
    exact ⟨_, more, by simp only [List.append_assoc], ⟨gap.toList, rfl, gapRun, nameRun⟩, ended⟩
  complete := by
    rintro _ name more ⟨gap, rfl, gapRun, nameRun⟩ ends
    have nameStops := ends.stops isModuleChar_of_isBlank
    have gapStops := blank_stops isModuleChar_of_isBlank nameRun more
    have isName : run1 (fun c => Text.isWord c || c = '.') (name.toList ++ more) =
        some (String.ofList name.toList, more) := run1_run nameRun nameStops
    simp only [List.append_assoc, moduleAt, Option.bind_eq_bind, Option.bind_some,
      List.isPrefixOf?_eq_some_iff_append_eq.mpr rfl, run1_run gapRun gapStops, isName,
      String.ofList_toList, Option.map_eq_bind]
    rfl

theorem run_not_isBlank_iff (word : List Char) :
    Text.Run (fun c => !Text.isBlank c) word ↔ Text.Solid word := by
  simp [Text.Run, Text.Solid]

theorem reads_internal : Reads InternalType.Spells internalAt where
  nonempty := by
    rintro front entry ⟨gap, between, rfl, -⟩
    simp
  sound := by
    intro text entry rest read
    simp only [internalAt, Option.bind_eq_bind, Option.bind_eq_some_iff] at read
    obtain ⟨_, parted, ⟨gap, _⟩, isGap, ⟨name, _⟩, isName, ⟨between, _⟩, isBetween,
      ⟨path, more⟩, isPath, _, ended, ⟨⟩⟩ := read
    obtain rfl := List.isPrefixOf?_eq_some_iff_append_eq.mp parted
    obtain ⟨rfl, gapRun⟩ := run1_parts isGap
    obtain ⟨rfl, nameRun⟩ := run1_parts isName
    obtain ⟨rfl, betweenRun⟩ := run1_parts isBetween
    obtain ⟨rfl, pathRun⟩ := run1_parts isPath
    exact ⟨_, more, by simp only [List.append_assoc], ⟨gap.toList, between.toList, rfl, gapRun,
      nameRun, betweenRun, (run_not_isBlank_iff _).mp pathRun⟩, ended⟩
  complete := by
    rintro _ ⟨name, path⟩ more ⟨gap, between, rfl, gapRun, nameRun, betweenRun, solid⟩ ends
    have pathRun := (run_not_isBlank_iff _).mpr solid
    have pathStops := ends.stops Text.not_isBlank_of_isBlank
    have betweenStops := blank_stops Text.not_isBlank_of_isBlank pathRun more
    have nameStops := stops_of_run Text.isWord_of_isBlank betweenRun (path.toList ++ more)
    have gapStops := blank_stops Text.isWord_of_isBlank nameRun (between ++ (path.toList ++ more))
    simp only [List.append_assoc, internalAt, Option.bind_eq_bind, Option.bind_some,
      List.isPrefixOf?_eq_some_iff_append_eq.mpr rfl, run1_run gapRun gapStops,
      run1_run nameRun nameStops, run1_run betweenRun betweenStops, run1_run pathRun pathStops,
      String.ofList_toList, Option.map_eq_bind]
    rfl

def isVersionChar (c : Char) : Bool :=
  Text.isDecimal c || c = '.'

theorem isVersionChar_of_isBlank {c : Char} (blank : Text.isBlank c = true) :
    isVersionChar c = false :=
  orDot_of_isBlank blank (Text.isDecimal_of_isBlank blank)

theorem isVersion_iff (text : List Char) :
    IsVersion text ↔ Text.Run isVersionChar text ∧
      (text.splitOn '.').all (fun part => !part.isEmpty) = true := by
  have dotless {number : List Char} (isNumber : Text.Run Text.isDecimal number) : '.' ∉ number :=
    fun member => absurd (isNumber.2 '.' member) (by decide)
  have pieces := Text.mem_iff_mem_splitOn '.' text
  constructor
  · rintro ⟨numbers, nonempty, areNumbers, isText⟩
    have split : text.splitOn '.' = numbers := by
      rw [isText]
      exact List.splitOn_intercalate '.' (fun number isNumber =>
        dotless (areNumbers number isNumber)) nonempty
    rw [split] at pieces ⊢
    refine ⟨⟨?_, fun c member => ?_⟩, ?_⟩
    · rintro rfl
      rw [← split] at areNumbers
      exact (areNumbers [] (by simp)).1 rfl
    · rw [isVersionChar, Bool.or_eq_true, decide_eq_true_eq, or_iff_not_imp_right]
      intro other
      obtain ⟨number, isNumber, inside⟩ := (pieces c other).mp member
      exact (areNumbers number isNumber).2 c inside
    · simpa using fun number isNumber => (areNumbers number isNumber).1
  · rintro ⟨isRun, apart⟩
    refine ⟨text.splitOn '.', List.splitOn_ne_nil '.' text, fun number isNumber => ⟨?_, ?_⟩,
      (List.intercalate_splitOn '.').symm⟩
    · simpa using List.all_eq_true.mp apart number isNumber
    · intro c inside
      have other : c ≠ '.' :=
        ne_of_mem_of_not_mem inside (Text.not_mem_of_mem_splitOn '.' text number isNumber)
      have isChar := isRun.2 c ((pieces c other).mpr ⟨number, isNumber, inside⟩)
      simpa [isVersionChar, other] using isChar

theorem version_parts {text rest : List Char} {number : String}
    (read : version text = some (number, rest)) :
    text = number.toList ++ rest ∧ IsVersion number.toList := by
  obtain ⟨isRun, apart⟩ := Option.filter_eq_some_iff.mp read
  obtain ⟨parts, run⟩ := run1_parts isRun
  exact ⟨parts, (isVersion_iff _).mpr ⟨run, apart⟩⟩

theorem version_run {run more : List Char} (isVersion : IsVersion run)
    (stops : more.takeWhile isVersionChar = []) :
    version (run ++ more) = some (String.ofList run, more) := by
  obtain ⟨isRun, apart⟩ := (isVersion_iff run).mp isVersion
  refine Option.filter_eq_some_iff.mpr ⟨run1_run isRun stops, ?_⟩
  simpa using apart

theorem reads_object : Reads ObjectType.Spells objectAt where
  nonempty := by
    rintro front entry ⟨gap, between, rfl, nameRun, -⟩
    simp [nameRun.1]
  sound := by
    intro text entry rest read
    simp only [objectAt, Option.bind_eq_bind, Option.bind_eq_some_iff] at read
    obtain ⟨⟨name, _⟩, isName, ⟨gap, _⟩, isGap, ⟨number, _⟩, isNumber, ⟨between, _⟩, isBetween,
      ⟨path, more⟩, isPath, _, ended, ⟨⟩⟩ := read
    obtain ⟨rfl, nameRun⟩ := run1_parts isName
    obtain ⟨rfl, gapRun⟩ := run1_parts isGap
    obtain ⟨rfl, numberRun⟩ := version_parts isNumber
    obtain ⟨rfl, betweenRun⟩ := run1_parts isBetween
    obtain ⟨rfl, pathRun⟩ := run1_parts isPath
    exact ⟨_, more, by simp only [List.append_assoc], ⟨gap.toList, between.toList, rfl, nameRun,
      gapRun, numberRun, betweenRun, (run_not_isBlank_iff _).mp pathRun⟩, ended⟩
  complete := by
    rintro _ ⟨name, number, path⟩ more
      ⟨gap, between, rfl, nameRun, gapRun, isNumber, betweenRun, solid⟩ ends
    have pathRun := (run_not_isBlank_iff _).mpr solid
    have numberRun := ((isVersion_iff _).mp isNumber).1
    have pathStops := ends.stops Text.not_isBlank_of_isBlank
    have betweenStops := blank_stops Text.not_isBlank_of_isBlank pathRun more
    have numberStops := stops_of_run isVersionChar_of_isBlank betweenRun (path.toList ++ more)
    have gapStops := blank_stops isVersionChar_of_isBlank numberRun
      (between ++ (path.toList ++ more))
    have nameStops := stops_of_run Text.isWord_of_isBlank gapRun
      (number.toList ++ (between ++ (path.toList ++ more)))
    simp only [List.append_assoc, objectAt, Option.bind_eq_bind, Option.bind_some,
      run1_run nameRun nameStops, run1_run gapRun gapStops, version_run isNumber numberStops,
      run1_run betweenRun betweenStops, run1_run pathRun pathStops, String.ofList_toList,
      Option.map_eq_bind]
    rfl

theorem internalTypes_iff (text : String) (entries : List InternalType) :
    FindsAll InternalType.Spells none text.toList entries ↔ entries = internalTypes text :=
  findsAll_iff reads_internal text.toList entries

theorem objectTypes_iff (text : String) (entries : List ObjectType) :
    FindsAll ObjectType.Spells none text.toList entries ↔ entries = objectTypes text :=
  findsAll_iff reads_object text.toList entries

/-- The text starts with the name of the module. -/
def Opens (text : List Char) (name : String) : Prop :=
  ∃ matched behind, text = matched ++ behind ∧ Matches SpellsModule matched name behind

theorem moduleName_eq_some_iff (text name : String) :
    moduleName text = some name ↔ Opens text.toList name := by
  rw [moduleName, Option.map_eq_some_iff]
  constructor
  · rintro ⟨⟨_, behind⟩, found, rfl⟩
    obtain ⟨matched, parts, here⟩ := (reads_module.eq_some_iff _ _ _).mp found
    exact ⟨matched, behind, parts, here.fits⟩
  · rintro ⟨matched, behind, parts, fits⟩
    obtain ⟨further, found⟩ := reads_module.isSome fits
    exact ⟨(name, further), by rw [parts, found], rfl⟩

/-- The name that a description gives to its module, which is empty if it gives none. -/
def ModuleIs (text : List Char) (name : String) : Prop :=
  Opens text name ∨ (∀ other, ¬Opens text other) ∧ name = ""

theorem moduleIs_moduleName (text : String) :
    ModuleIs text.toList ((moduleName text).getD "") := by
  have opens := moduleName_eq_some_iff text
  cases named : moduleName text with
  | some name => exact Or.inl ((opens name).mp named)
  | none =>
      refine Or.inr ⟨fun other isOpen => ?_, rfl⟩
      rw [← opens, named] at isOpen
      cases isOpen

theorem moduleName_getD_eq_iff (text : String) {name : String} (given : name ≠ "") :
    (moduleName text).getD "" = name ↔ Opens text.toList name := by
  rw [← moduleName_eq_some_iff]
  cases moduleName text with
  | some other => simp
  | none => simp [given.symm]

/-- A line that names the module, with white space at its end or without. -/
def IsModuleLine (line : List Char) (name : String) : Prop :=
  ∃ front trail, line = front ++ trail ∧ SpellsModule front name ∧
    ∀ c ∈ trail, Text.isBlank c = true

/-- The text starts with the name of the module, on a later line than the word `module`. -/
def OpensAcross (text : List Char) (name : String) : Prop :=
  ∃ front trail behind, text = front ++ (trail ++ behind) ∧ SpellsModule front name ∧
    '\n' ∈ front ∧ EndsLine (trail ++ behind) trail behind

/-- The first line that names the module stands behind so many others. -/
structure FirstModuleLine (text : List Char) (place : Nat) (name : String) : Prop where
  here : ∃ line, (text.splitOn '\n')[place]? = some line ∧ IsModuleLine line name
  first : ∀ earlier < place, ∀ line, (text.splitOn '\n')[earlier]? = some line →
    ∀ other, ¬IsModuleLine line other

theorem opens_iff (text : List Char) (name : String) :
    Opens text name ↔
      IsModuleLine (text.takeWhile (· ≠ '\n')) name ∨ OpensAcross text name := by
  constructor
  · rintro ⟨_, behind, rfl, front, trail, rfl, isFront, ends⟩
    rw [List.append_assoc]
    by_cases across : '\n' ∈ front
    · exact Or.inr ⟨front, trail, behind, rfl, isFront, across, ends⟩
    · refine Or.inl ⟨front, (trail ++ behind).takeWhile (· ≠ '\n'), ?_, isFront, ?_⟩
      · rw [Text.takeWhile_ne_append '\n' front _ across]
      · exact ends.blank_front
  · rintro (⟨front, trail, isLine, isFront, blank⟩ |
      ⟨front, trail, behind, rfl, isFront, -, ends⟩)
    · refine ⟨text.takeWhile (· ≠ '\n'), text.dropWhile (· ≠ '\n'),
        List.takeWhile_append_dropWhile.symm, front, trail, isLine, isFront, rfl, blank, ?_⟩
      intro c first
      have stops := List.head?_dropWhile_not (· ≠ '\n') text
      rw [first] at stops
      simpa using stops
    · exact ⟨front ++ trail, behind, (List.append_assoc _ _ _).symm, front, trail, rfl, isFront,
        ends⟩

theorem FirstModuleLine.opens_iff {text : List Char} {place : Nat} {name : String}
    (first : FirstModuleLine text place name) :
    Opens text name ↔ place = 0 ∨ OpensAcross text name := by
  obtain ⟨later, lines⟩ := Text.splitOn_front '\n' text
  rw [ModuleFile.opens_iff]
  refine or_congr_left' fun inLine => ?_
  constructor
  · intro isLine
    by_contra behind
    exact first.first 0 (Nat.pos_of_ne_zero behind) _ (by rw [lines]; rfl) name isLine
  · rintro rfl
    obtain ⟨line, there, isLine⟩ := first.here
    rw [lines] at there
    obtain rfl := Option.some.inj there
    exact isLine

end ModuleFile

end QmlDoc
