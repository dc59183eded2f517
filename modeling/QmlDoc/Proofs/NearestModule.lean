import Mathlib.Data.List.DropRight
import QmlDoc.ModuleFile

set_option autoImplicit false

namespace QmlDoc.Path

/-- A path goes on behind its directory part with a name if the directory part has slashes only.
Otherwise the directory part does not end in a slash, and slashes and a name follow. The name may be
missing. -/
inductive DirPart (dir : List Char) : List Char → Prop
  | top {name : List Char} (slash : ∀ c ∈ dir, c = '/') (noSlash : ∀ c ∈ name, c ≠ '/') :
      DirPart dir (dir ++ name)
  | inner {slashes name : List Char} {c : Char} (ends : dir.getLast? = some c) (named : c ≠ '/')
      (someSlash : slashes ≠ []) (slash : ∀ c ∈ slashes, c = '/') (noSlash : ∀ c ∈ name, c ≠ '/') :
      DirPart dir (dir ++ slashes ++ name)

theorem head_append_rtakeWhile (path : List Char) :
    head path ++ path.rtakeWhile (· ≠ '/') = path :=
  List.rdropWhile_append_rtakeWhile

/-- What stands before the last slash ends in it. -/
theorem rtakeWhile_head_ne_nil {path : List Char} (some : head path ≠ []) :
    (head path).rtakeWhile (· = '/') ≠ [] := by
  rw [Ne, List.rtakeWhile_eq_nil_iff]
  intro noSlash
  have other : (head path).getLast some ≠ '/' := by simpa using noSlash some
  exact List.rdropWhile_last_not (· ≠ '/') path some (decide_eq_true other)

theorem dirname_dirPart (path : String) : DirPart (dirname path).toList path.toList := by
  have noSlash : ∀ c ∈ path.toList.rtakeWhile (· ≠ '/'), c ≠ '/' := fun c member => by
    simpa using List.mem_rtakeWhile_imp member
  have whole := head_append_rtakeWhile path.toList
  rw [dirname]
  split
  next slashes =>
    rw [String.toList_ofList]
    nth_rewrite 2 [← whole]
    exact .top (by simpa using slashes) noSlash
  next notSlashes =>
    -- the slashes at the end are dropped, and so is at least the one up to which `head` goes
    rw [String.toList_ofList]
    have parts : (head path.toList).rdropWhile (· = '/') ++
        (head path.toList).rtakeWhile (· = '/') = head path.toList :=
      List.rdropWhile_append_rtakeWhile
    have slash : ∀ c ∈ (head path.toList).rtakeWhile (· = '/'), c = '/' := fun c member => by
      simpa using List.mem_rtakeWhile_imp member
    have someDir : (head path.toList).rdropWhile (· = '/') ≠ [] := by
      rw [Ne, List.rdropWhile_eq_nil_iff]
      simpa using notSlashes
    have someHead : head path.toList ≠ [] := by
      intro isNil
      rw [isNil, List.rdropWhile_nil] at someDir
      exact someDir rfl
    have named := List.rdropWhile_last_not _ _ someDir
    have goesOn := DirPart.inner (List.getLast?_eq_some_getLast someDir) (by simpa using named)
      (rtakeWhile_head_ne_nil someHead) slash noSlash
    rwa [parts, whole] at goesOn

namespace DirPart

variable {dir path : List Char}

theorem eq_iff (part : DirPart dir path) : dir = path ↔ ∀ c ∈ path, c = '/' := by
  cases part with
  | @top name slash noSlash =>
      rw [List.self_eq_append_right]
      constructor
      · rintro rfl
        rwa [List.append_nil]
      · intro all
        refine List.eq_nil_iff_forall_not_mem.mpr fun c member => ?_
        exact noSlash c member (all c (List.mem_append_right _ member))
  | inner ends named someSlash =>
      refine iff_of_false ?_ ?_
      · rw [List.append_assoc, List.self_eq_append_right]
        exact fun isNil => someSlash (List.append_eq_nil_iff.mp isNil).1
      · intro all
        exact named (all _ (by simp [List.mem_of_getLast? ends]))

theorem isPrefix (part : DirPart dir path) : dir <+: path := by
  cases part with
  | top => exact List.prefix_append _ _
  | inner => exact (List.prefix_append _ _).trans (List.prefix_append _ _)

end DirPart

def root (path : List Char) : List Char :=
  path.takeWhile (· = '/')

theorem root_of_slashes {path : List Char} (slash : ∀ c ∈ path, c = '/') : root path = path :=
  List.takeWhile_eq_self_iff.mpr (by simpa using slash)

theorem root_append_of_mem {dir : List Char} {c : Char} (member : c ∈ dir) (named : c ≠ '/')
    (rest : List Char) : root (dir ++ rest) = root dir := by
  rw [root, List.takeWhile_append, if_neg]
  · rfl
  · intro whole
    have same := (List.takeWhile_prefix _).eq_of_length whole
    rw [← same] at member
    exact named (by simpa using List.mem_takeWhile_imp member)

/-- The directory part starts with the same slashes. -/
theorem DirPart.root_eq {dir path : List Char} (part : DirPart dir path) :
    root dir = root path := by
  cases part with
  | @top name slash noSlash =>
      have stops : name.takeWhile (· = '/') = [] :=
        List.takeWhile_eq_nil_iff.mpr fun within => by
          simpa using noSlash _ (List.getElem_mem within)
      rw [root_of_slashes slash, root, List.takeWhile_append_of_pos (by simpa using slash), stops,
        List.append_nil]
  | inner ends named =>
      rw [List.append_assoc, root_append_of_mem (List.mem_of_getLast? ends) named]

theorem dirname_eq_self_iff (path : String) : dirname path = path ↔ ∀ c ∈ path.toList, c = '/' := by
  rw [← (dirname_dirPart path).eq_iff, String.toList_inj]

theorem length_dirname_le (path : String) : (dirname path).length ≤ path.length := by
  have shorter := (dirname_dirPart path).isPrefix.length_le
  rwa [String.length_toList, String.length_toList] at shorter

theorem length_dirname_lt {path : String} (changes : dirname path ≠ path) :
    (dirname path).length < path.length := by
  refine Nat.lt_of_le_of_ne (length_dirname_le path) fun same => changes ?_
  rw [← String.toList_inj]
  apply (dirname_dirPart path).isPrefix.eq_of_length
  rw [String.length_toList, String.length_toList, same]

/-- The directories from one upwards. -/
inductive Upwards : String → List String → Prop
  | top {dir : String} (stays : dirname dir = dir) : Upwards dir [dir]
  | up {dir : String} {later : List String} (changes : dirname dir ≠ dir)
      (rest : Upwards (dirname dir) later) : Upwards dir (dir :: later)

/-- With more steps than characters the way up is not cut short. -/
theorem ancestorsFrom_upwards (steps : Nat) (dir : String) (enough : dir.length < steps) :
    Upwards dir (ancestorsFrom steps dir) := by
  induction steps generalizing dir with
  | zero => cases enough
  | succ steps ih =>
      rw [ancestorsFrom]
      split
      next stays => exact .top stays
      next changes =>
        have shorter := length_dirname_lt changes
        exact .up changes (ih (dirname dir) (by omega))

theorem ancestors_upwards (path : String) : Upwards (dirname path) (ancestors path) :=
  ancestorsFrom_upwards _ _ (Nat.lt_succ_of_le (length_dirname_le path))

/-- A step up goes to the directory of a path, which is shorter. -/
def StepUp (dir parent : String) : Prop :=
  parent = dirname dir ∧ parent.length < dir.length

/-- The directories above a file, as the search is to meet them: the directory of the file first,
then step by step upwards, and last a path of slashes only, which is the empty one exactly if the
path of the file is relative. -/
structure Ascent (file : String) (dirs : List String) : Prop where
  first : dirs.head? = some (dirname file)
  climbs : dirs.IsChain StepUp
  last : ∃ top, dirs.getLast? = some top ∧ (∀ c ∈ top.toList, c = '/') ∧
    (top = "" ↔ file.toList.head? ≠ some '/')

namespace Upwards

variable {dir : String} {dirs others : List String}

theorem unique (upwards : Upwards dir dirs) (also : Upwards dir others) : others = dirs := by
  induction upwards generalizing others with
  | top stays =>
      cases also with
      | top => rfl
      | up changes => exact absurd stays changes
  | up changes _ ih =>
      cases also with
      | top stays => exact absurd stays changes
      | up _ rest => rw [ih rest]

theorem head?_eq (upwards : Upwards dir dirs) : dirs.head? = some dir := by
  cases upwards with
  | top => rfl
  | up => rfl

theorem isChain (upwards : Upwards dir dirs) : dirs.IsChain StepUp := by
  induction upwards with
  | top => exact .singleton _
  | @up dir later changes rest ih =>
      cases later with
      | nil => cases rest
      | cons parent later =>
          obtain rfl := Option.some.inj rest.head?_eq
          exact .cons_cons ⟨rfl, length_dirname_lt changes⟩ ih

/-- All directories start with the same slashes, and the last one has nothing else. -/
theorem getLast?_eq (upwards : Upwards dir dirs) :
    dirs.getLast? = some (String.ofList (root dir.toList)) := by
  induction upwards with
  | top stays =>
      rw [root_of_slashes ((dirname_eq_self_iff _).mp stays), String.ofList_toList]
      rfl
  | @up dir later changes rest ih =>
      rw [List.getLast?_cons, ih, (dirname_dirPart dir).root_eq]
      rfl

/-- A way up is known by its steps and by where it ends. -/
theorem of_isChain {top : String} (first : dirs.head? = some dir)
    (climbs : dirs.IsChain StepUp) (last : dirs.getLast? = some top)
    (slash : ∀ c ∈ top.toList, c = '/') : Upwards dir dirs := by
  induction climbs generalizing dir with
  | nil => cases first
  | singleton start =>
      obtain rfl := Option.some.inj first
      obtain rfl := Option.some.inj last
      exact .top ((dirname_eq_self_iff _).mpr slash)
  | @cons_cons start parent later step _ ih =>
      obtain rfl := Option.some.inj first
      obtain ⟨rfl, shorter⟩ := step
      -- a path that gets shorter does change, so the way up does not stop here
      refine .up (fun stays => ?_) (ih rfl ?_)
      · rw [stays] at shorter
        exact Nat.lt_irrefl _ shorter
      · rwa [List.getLast?_cons_cons] at last

end Upwards

theorem root_eq_nil_iff (path : List Char) : root path = [] ↔ path.head? ≠ some '/' := by
  cases path with
  | nil => simp [root]
  | cons c rest => simp [root, List.takeWhile_cons]

theorem ascent_iff (file : String) (dirs : List String) :
    Ascent file dirs ↔ dirs = ancestors file := by
  have upwards := ancestors_upwards file
  constructor
  · rintro ⟨first, climbs, top, last, slash, -⟩
    exact upwards.unique (.of_isChain first climbs last slash)
  · rintro rfl
    refine ⟨upwards.head?_eq, upwards.isChain, _, upwards.getLast?_eq, ?_, ?_⟩
    · rw [String.toList_ofList]
      exact fun c member => by simpa using List.mem_takeWhile_imp member
    · rw [(dirname_dirPart file).root_eq, ← root_eq_nil_iff, ← String.toList_inj,
        String.toList_ofList]
      rfl

-- Runs of slashes between the names go with the name behind them, those at the front stay.
example : ancestors "//usr//share/Item.qml" = ["//usr//share", "//usr", "//"] := by
  decide +kernel

end QmlDoc.Path

namespace QmlDoc.ModuleFile

/-- The search from a directory on, round by round, and what it comes to. It looks for a description
in the directory, and goes on with the directory of that unless this is the same. -/
inductive Search (isFile : String → Bool) : String → Option String → Prop
  | found {dir : String} (here : isFile (Path.join dir "qmldir") = true) :
      Search isFile dir (some (Path.join dir "qmldir"))
  | ends {dir : String} (absent : isFile (Path.join dir "qmldir") = false)
      (stays : Path.dirname dir = dir) : Search isFile dir none
  | up {dir : String} {result : Option String} (absent : isFile (Path.join dir "qmldir") = false)
      (changes : Path.dirname dir ≠ dir) (rest : Search isFile (Path.dirname dir) result) :
      Search isFile dir result

variable {isFile : String → Bool}

theorem Search.unique {dir : String} {result other : Option String}
    (search : Search isFile dir result) (also : Search isFile dir other) : result = other := by
  induction search with
  | found here =>
      cases also with
      | found => rfl
      | ends absent => exact absurd here (by simp [absent])
      | up absent => exact absurd here (by simp [absent])
  | ends absent stays =>
      cases also with
      | found here => exact absurd here (by simp [absent])
      | ends => rfl
      | up _ changes => exact absurd stays changes
  | up absent changes _ ih =>
      cases also with
      | found here => exact absurd here (by simp [absent])
      | ends _ stays => exact absurd stays changes
      | up _ _ rest => exact ih rest

/-- The search meets the directories on the way up, one in each round. -/
theorem search_of_upwards (isFile : String → Bool) {dir : String} {dirs : List String}
    (upwards : Path.Upwards dir dirs) :
    Search isFile dir ((dirs.map fun dir => Path.join dir "qmldir").find? isFile) := by
  induction upwards with
  | @top dir stays =>
      rw [List.map_singleton, List.find?_singleton]
      split
      next here => exact .found here
      next absent => exact .ends (by simpa using absent) stays
  | @up dir later changes _ ih =>
      rw [List.map_cons, List.find?_cons]
      split
      next here => exact .found here
      next absent => exact .up absent changes ih

theorem search_iff (isFile : String → Bool) (file : String) (result : Option String) :
    Search isFile (Path.dirname file) result ↔ find? isFile file = result := by
  have search := search_of_upwards isFile (Path.ancestors_upwards file)
  constructor
  · exact search.unique
  · rintro rfl
    exact search

/-- The search ends, and in one way only: with the description in the first directory above the file
that has one, and with nothing exactly if none of these directories has one. There is one list of
directories above the file, and its last one is tried too. -/
theorem search_nearest (isFile : String → Bool) (file : String) :
    ∃ dirs, (∀ others, Path.Ascent file others ↔ others = dirs) ∧
      (∀ result, Search isFile (Path.dirname file) result ↔ find? isFile file = result) ∧
      (∀ description, find? isFile file = some description ↔
        ∃ nearer dir farther, dirs = nearer ++ dir :: farther ∧
          description = Path.join dir "qmldir" ∧ isFile description = true ∧
          ∀ other ∈ nearer, isFile (Path.join other "qmldir") = false) ∧
      (find? isFile file = none ↔ ∀ dir ∈ dirs, isFile (Path.join dir "qmldir") = false) := by
  refine ⟨Path.ancestors file, Path.ascent_iff file, search_iff isFile file, fun description => ?_,
    ?_⟩
  · rw [find?, candidates, List.find?_map, Option.map_eq_some_iff]
    constructor
    · rintro ⟨dir, isFound, rfl⟩
      obtain ⟨here, nearer, farther, order, absent⟩ := List.find?_eq_some_iff_append.mp isFound
      exact ⟨nearer, dir, farther, order, rfl, here, by simpa using absent⟩
    · rintro ⟨nearer, dir, farther, order, rfl, here, absent⟩
      refine ⟨dir, ?_, rfl⟩
      exact List.find?_eq_some_iff_append.mpr ⟨here, nearer, farther, order, by simpa using absent⟩
  · rw [find?, candidates, List.find?_eq_none, List.forall_mem_map]
    simp

end QmlDoc.ModuleFile
