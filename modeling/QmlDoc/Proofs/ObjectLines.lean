import Mathlib.Data.List.Forall2
import QmlDoc.Proofs.PrintedMembers

set_option autoImplicit false

namespace QmlDoc

namespace Text

/-- Some texts may be joined before the others are. -/
theorem intercalate_nested (sep : String) (front middle back : List String) (some : middle ≠ []) :
    sep.intercalate (front ++ sep.intercalate middle :: back) =
      sep.intercalate (front ++ (middle ++ back)) := by
  induction front with
  | nil =>
      cases back with
      | nil => simp
      | cons next back =>
          rw [List.nil_append, List.nil_append, String.intercalate_cons_of_ne_nil (by simp),
            String.intercalate_append_of_ne_nil some (by simp)]
  | cons text front ih =>
      rw [List.cons_append, List.cons_append, String.intercalate_cons_of_ne_nil (by simp),
        String.intercalate_cons_of_ne_nil (by simp [some]), ih]

theorem intercalate_ne_empty (sep : String) (texts : List String) (some : texts ≠ [])
    (given : ∀ text ∈ texts, text ≠ "") : sep.intercalate texts ≠ "" := by
  obtain ⟨first, later, rfl⟩ := List.exists_cons_of_ne_nil some
  have firstGiven : first ≠ "" := given first (by simp)
  cases later with
  | nil => simpa using firstGiven
  | cons next later => simp [String.intercalate_cons_cons, firstGiven]

end Text

namespace Element

mutual

/-- The objects that an element stands for: itself, then those inside of it. Only objects lead to
further ones. -/
def objects : Element → List (ComponentInfo × List Element)
  | component info elements => (info, elements) :: objectsAmong elements
  | _ => []

def objectsAmong : List Element → List (ComponentInfo × List Element)
  | [] => []
  | element :: later => objects element ++ objectsAmong later

end

/-- The first attribute with the name `id` has the value `id`. -/
def HasId (elements : List Element) (id : String) : Prop :=
  ∃ earlier a later, elements = earlier ++ attr a :: later ∧ a.name = "id" ∧ a.value = id ∧
    ∀ other, attr other ∈ earlier → other.name ≠ "id"

/-- What an object adds to the text: its comment, if it has one, and its declaration. An object
without an id adds nothing. -/
inductive Adds (info : ComponentInfo) (elements : List Element) : List String → Prop
  | declared {id : String} (hasId : HasId elements id) (given : id ≠ "") :
      Adds info elements
        (info.comment.toList.filter (· ≠ "") ++ [simpleName info.name ++ " " ++ id ++ ";"])
  | unnamed (noId : ∀ id, HasId elements id → id = "") : Adds info elements []

theorem hasId_cons (element : Element) (later : List Element) (id : String) :
    HasId (element :: later) id ↔
      (∃ a, element = attr a ∧ a.name = "id" ∧ a.value = id) ∨
        (∀ a, element = attr a → a.name ≠ "id") ∧ HasId later id := by
  constructor
  · rintro ⟨earlier, a, behind, order, named, valued, first⟩
    cases earlier with
    | nil =>
        obtain ⟨rfl, rfl⟩ := List.cons.inj order
        exact Or.inl ⟨a, rfl, named, valued⟩
    | cons front earlier =>
        obtain ⟨rfl, rfl⟩ := List.cons.inj order
        refine Or.inr ⟨?_, earlier, a, behind, rfl, named, valued, ?_⟩
        · rintro other rfl
          exact first other (by simp)
        · intro other member
          exact first other (by simp [member])
  · rintro (⟨a, rfl, named, valued⟩ | ⟨other, earlier, a, behind, rfl, named, valued, first⟩)
    · exact ⟨[], a, later, rfl, named, valued, fun _ member => absurd member List.not_mem_nil⟩
    · refine ⟨element :: earlier, a, behind, rfl, named, valued, fun each member => ?_⟩
      rcases List.mem_cons.mp member with same | member
      · exact other each same.symm
      · exact first each member

theorem objectId_eq_some_iff (elements : List Element) (id : String) :
    objectId elements = some id ↔ HasId elements id := by
  induction elements with
  | nil => simp [objectId, HasId]
  | cons element later ih =>
      rw [hasId_cons, ← ih]
      cases element with
      | attr a =>
          by_cases named : a.name = "id"
          · simp [objectId, attr?, named]
          · simp [objectId, attr?, named]
      | _ => simp [objectId, attr?]

theorem adds_ownLines (info : ComponentInfo) (elements : List Element) :
    Adds info elements (ownLines info elements) := by
  have isId := objectId_eq_some_iff elements
  rw [ownLines]
  split
  · rename_i absent
    refine .unnamed fun id hasId => ?_
    rw [← isId, absent] at hasId
    cases hasId
  · rename_i empty
    refine .unnamed fun id hasId => ?_
    rw [← isId, empty] at hasId
    exact (Option.some.inj hasId).symm
  · rename_i id given found
    exact .declared ((isId id).mp found) given

theorem Adds.ne_empty {info : ComponentInfo} {elements : List Element} {lines : List String}
    (adds : Adds info elements lines) : ∀ line ∈ lines, line ≠ "" := by
  intro line member
  cases adds with
  | unnamed => cases member
  | declared =>
      rcases List.mem_append.mp member with isComment | isDeclaration
      · simpa using (List.mem_filter.mp isComment).2
      · rw [List.mem_singleton.mp isDeclaration]
        simp

def linesOf (objects : List (ComponentInfo × List Element)) : List String :=
  objects.flatMap fun object => ownLines object.1 object.2

theorem linesOf_ne_empty (objects : List (ComponentInfo × List Element)) :
    ∀ line ∈ linesOf objects, line ≠ "" := by
  intro line member
  obtain ⟨object, -, isOwn⟩ := List.mem_flatMap.mp member
  exact (adds_ownLines object.1 object.2).ne_empty line isOwn

theorem linesOf_append (first second : List (ComponentInfo × List Element)) :
    linesOf (first ++ second) = linesOf first ++ linesOf second :=
  List.flatMap_append

mutual

/-- In a list of lines, the text of an object stands for the lines of the objects in it. -/
theorem intercalate_objectTextOf : ∀ (element : Element) (front back : List String),
    "\n".intercalate (front ++ (objectTextOf element ++ back)) =
      "\n".intercalate (front ++ (linesOf (objects element) ++ back))
  | component info elements, front, back => by
      have flat : "\n".intercalate (ownLines info elements ++ objectTexts elements) =
          "\n".intercalate (linesOf (objects (component info elements))) := by
        have inside := intercalate_objectTexts elements (ownLines info elements) []
        rwa [List.append_nil, List.append_nil] at inside
      have given := linesOf_ne_empty (objects (component info elements))
      rw [objectTextOf]
      rw [flat]
      by_cases none : linesOf (objects (component info elements)) = []
      · rw [none, String.intercalate_nil, if_pos rfl]
      · rw [if_neg (Text.intercalate_ne_empty "\n" _ none given), List.singleton_append,
          Text.intercalate_nested "\n" front _ back none]
  | comment _, _, _ | attr _, _, _ | property _, _, _ | function _, _, _ | signal _, _, _
  | enumeration _, _, _ | inlineType _ _, _, _ => rfl

theorem intercalate_objectTexts : ∀ (elements : List Element) (front back : List String),
    "\n".intercalate (front ++ (objectTexts elements ++ back)) =
      "\n".intercalate (front ++ (linesOf (objectsAmong elements) ++ back))
  | [], _, _ => rfl
  | element :: later, front, back => by
      have first := intercalate_objectTextOf element front (objectTexts later ++ back)
      have others := intercalate_objectTexts later (front ++ linesOf (objects element)) back
      rw [objectTexts, objectsAmong, linesOf_append, List.append_assoc, first,
        ← List.append_assoc, others]
      simp only [List.append_assoc]

end

/-- An object is written as the lines of all objects that only objects lead to, outer ones before
those inside of them, joined once. Each of them adds its comment and its declaration, or nothing
if it has no id; no line is empty, and writing changes nothing. -/
theorem print_objectLines (info : ComponentInfo) (elements : List Element) :
    let object := component info elements
    ∃ parts, List.Forall₂ (fun each lines => Adds each.1 each.2 lines) (objects object) parts ∧
      print object = ⟨"\n".intercalate parts.flatten, object, []⟩ ∧
      ∀ line ∈ parts.flatten, line ≠ "" := by
  intro object
  refine ⟨(objects object).map fun each => ownLines each.1 each.2, ?_, ?_, ?_⟩
  · rw [List.forall₂_map_right_iff, List.forall₂_same]
    exact fun each _ => adds_ownLines each.1 each.2
  · have inside := intercalate_objectTexts elements (ownLines info elements) []
    rw [List.append_nil, List.append_nil] at inside
    rw [print_component, objectText, inside]
    rfl
  · exact linesOf_ne_empty (objects object)

end Element

end QmlDoc
