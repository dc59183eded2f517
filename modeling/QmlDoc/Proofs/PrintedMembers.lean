import Mathlib.Logic.Function.Iterate
import QmlDoc.Document
import QmlDoc.Proofs.TypeAnnotations
import QmlDoc.Token.Arrange

set_option autoImplicit false

namespace QmlDoc

theorem qualifiedBase_qualifiedBase (name : String) :
    qualifiedBase (qualifiedBase name) = qualifiedBase name := by
  by_cases isObject : name = "QtObject"
  · rw [isObject]
    rfl
  · by_cases isItem : name = "Item"
    · rw [isItem]
      rfl
    · have same : qualifiedBase name = name := by
        rw [qualifiedBase, if_neg isObject, if_neg isItem]
      rw [same, same]

theorem TypeInfo.qualify_qualify (info : TypeInfo) : info.qualify.qualify = info.qualify := by
  rw [qualify, qualify, qualifiedBase_qualifiedBase]

namespace Element

section

variable (print : Element → Printed Element) (separate : Bool)

/-- An element as it is once it has been printed. -/
def printed (element : Element) : Element :=
  (print element).after

/-- How often an element is printed before it is written. -/
def Context.trials (context : Context) (isPublic : Bool) : Nat :=
  if isPublic = context.isPublic ∧ context.afterLine = true then 2 else 1

/-- What stands before an element that is printed as `second` for the second time. -/
def Context.lead (context : Context) (isPublic : Bool) (second : String) : List Piece :=
  if isPublic ≠ context.isPublic then [.access isPublic]
  else if context.afterLine && isLineComment second && separate then [.separator]
  else []

def memberPiece (element : Element) (text : String) : List Piece :=
  if text = "" then [] else [.member element text]

theorem placeMember_eq (isPublic : Bool) (context : Context) (element : Element) :
    let placed := placeMember print separate isPublic context element (printed print element)
    let trials := context.trials isPublic
    placed.pieces = context.lead separate isPublic (print (printed print element)).text ++
        memberPiece element (print ((printed print)^[trials] element)).text ∧
      placed.after = (printed print)^[trials + 1] element := by
  dsimp only
  rw [placeMember, Context.trials, Context.lead]
  by_cases changes : isPublic = context.isPublic
  · by_cases afterLine : context.afterLine = true
    · simp [changes, afterLine, memberPiece, printed]
    · simp [changes, afterLine, memberPiece, printed]
  · simp [changes, memberPiece, printed]

/-- Whether an element stays under the access in force. -/
def isQuiet (element : Element) : Bool :=
  element.isComment || (print element).text = ""

def accessIn (context : Context) (element : Element) : Bool :=
  if isQuiet print element then context.isPublic else element.isPublic

theorem placeElement_eq (context : Context) (element : Element) :
    let placed := placeElement print separate context element
    let isPublic := accessIn print context element
    let trials := context.trials isPublic
    placed.1.pieces = context.lead separate isPublic (print (printed print element)).text ++
        memberPiece element (print ((printed print)^[trials] element)).text ∧
      if isQuiet print element then
        placed.1.after = (printed print)^[trials + 2] element ∧
          placed.2 = { context with
            afterLine := isLineComment (print ((printed print)^[trials + 1] element)).text }
      else
        placed.1.after = (printed print)^[trials + 1] element ∧
          placed.2 = { isPublic := element.isPublic, afterLine := false } := by
  dsimp only
  rw [placeElement, accessIn, isQuiet]
  dsimp only
  by_cases quiet : (element.isComment || decide ((print element).text = "")) = true
  · obtain ⟨pieces, after⟩ := placeMember_eq print separate context.isPublic context element
    simp only [quiet, if_true]
    refine ⟨pieces, ?_, ?_⟩
    · rw [Function.iterate_succ_apply', ← after]
      rfl
    · rw [← after]
      rfl
  · obtain ⟨pieces, after⟩ := placeMember_eq print separate element.isPublic context element
    simp only [quiet, Bool.false_eq_true, if_false]
    exact ⟨pieces, after, trivial⟩

/-- What printing keeps of an element stays the same in a body. -/
theorem placeElements_after_map {α : Type} (view : Element → α)
    (keeps : ∀ element, view (printed print element) = view element) (elements : List Element) :
    ∀ context, (placeElements print separate context elements).after.map view =
      elements.map view := by
  have keepsAll (element : Element) (n : Nat) :
      view ((printed print)^[n] element) = view element := by
    induction n with
    | zero => rfl
    | succ n ih => rw [Function.iterate_succ_apply', keeps, ih]
  induction elements with
  | nil => exact fun _ => rfl
  | cons element later ih =>
      intro context
      have step := placeElement_eq print separate context element
      rw [placeElements]
      dsimp only at step ⊢
      rw [List.map_cons, List.map_cons, ih]
      congr 1
      split at step
      · rw [step.2.1, keepsAll]
      · rw [step.2.1, keepsAll]

end

section

variable {first second : Element → Printed Element} {meets : Element → Prop}
  (same : ∀ element, meets element → first element = second element)
  (stays : ∀ element, meets element → meets (printed first element))

include same stays

theorem placeMember_congr (separate isPublic : Bool) (context : Context)
    (element current : Element) (met : meets current) :
    placeMember first separate isPublic context element current =
        placeMember second separate isPublic context element current ∧
      meets (placeMember first separate isPublic context element current).after := by
  have once : meets (first current).after := stays current met
  have twice : meets (first (first current).after).after := stays _ once
  have sameNow := same current met
  have sameOnce := same _ once
  rw [placeMember, placeMember]
  by_cases changes : isPublic = context.isPublic
  · by_cases afterLine : context.afterLine = true
    · simp [changes, afterLine, ← sameNow, ← sameOnce, twice]
    · simp [changes, afterLine, ← sameNow, once]
  · simp [changes, ← sameNow, once]

theorem placeElement_congr (separate : Bool) (context : Context) (element : Element)
    (met : meets element) :
    placeElement first separate context element =
      placeElement second separate context element := by
  have sameNow := same element met
  rw [placeElement, placeElement, ← sameNow]
  dsimp only
  obtain ⟨sameMember, metMember⟩ := placeMember_congr same stays separate
    (if (element.isComment || decide ((first element).text = "")) = true then context.isPublic
      else element.isPublic) context element (first element).after (stays element met)
  rw [← sameMember, same _ metMember]

/-- Two printers that agree on all that they meet write the same body. -/
theorem placeElements_congr (separate : Bool) (elements : List Element)
    (met : ∀ element ∈ elements, meets element) : ∀ context,
    placeElements first separate context elements =
      placeElements second separate context elements := by
  induction elements with
  | nil => exact fun _ => rfl
  | cons element later ih =>
      intro context
      rw [List.forall_mem_cons] at met
      rw [placeElements, placeElements,
        placeElement_congr same stays separate context element met.1]
      dsimp only
      rw [ih met.2]

end

theorem depthList_cons (element : Element) (later : List Element) :
    depthList (element :: later) = max element.depth (depthList later) :=
  rfl

theorem depth_function (f : Function) : depth (.function f) = 0 :=
  rfl

theorem depth_inlineType (info : TypeInfo) (elements : List Element) :
    depth (.inlineType info elements) = depthList elements + 1 :=
  rfl

theorem depthList_eq_of_map {some others : List Element}
    (same : some.map depth = others.map depth) : depthList some = depthList others := by
  induction some generalizing others with
  | nil =>
      cases others with
      | nil => rfl
      | cons => cases same
  | cons element later ih =>
      cases others with
      | nil => cases same
      | cons other others =>
          obtain ⟨first, rest⟩ := List.cons.inj same
          rw [depthList_cons, depthList_cons, first, ih rest]

theorem depth_le_depthList {element : Element} {elements : List Element}
    (member : element ∈ elements) : element.depth ≤ depthList elements := by
  induction elements with
  | nil => cases member
  | cons first later ih =>
      rw [depthList_cons]
      rcases List.mem_cons.mp member with rfl | later
      · exact Nat.le_max_left _ _
      · exact Nat.le_trans (ih later) (Nat.le_max_right _ _)

theorem printUpTo_function (n : Nat) (f : Function) :
    printUpTo n (.function f) = ⟨f.settle.1.text, .function f.settle.1, f.settle.2⟩ := by
  cases n <;> simp only [printUpTo, Function.print]

theorem printUpTo_component (n : Nat) (info : ComponentInfo) (elements : List Element) :
    printUpTo n (.component info elements) =
      ⟨objectText info elements, .component info elements, []⟩ := by
  cases n <;> rfl

theorem printUpTo_inlineType (n : Nat) (info : TypeInfo) (elements : List Element) :
    printUpTo (n + 1) (.inlineType info elements) =
      let body := placeElements (printUpTo n) info.separateBlocks {} elements
      let lines := info.qualify.opening ++ [info.qualify.classLine info.qualify.base?] ++
        body.pieces.map Piece.text ++ ["\x7d;"] ++ info.qualify.closing
      ⟨"\n".intercalate lines, .inlineType info.qualify body.after, body.notices⟩ :=
  rfl

theorem depth_printed (n : Nat) :
    ∀ element, (printed (printUpTo n) element).depth = element.depth := by
  induction n with
  | zero =>
      intro element
      cases element with
      | function f => rw [printed, printUpTo_function, depth_function, depth_function]
      | _ => rfl
  | succ n ih =>
      intro element
      cases element with
      | function f => rw [printed, printUpTo_function, depth_function, depth_function]
      | inlineType info elements =>
          have kept :=
            placeElements_after_map (printUpTo n) info.separateBlocks depth ih elements {}
          rw [printed, printUpTo_inlineType, depth_inlineType, depth_inlineType,
            depthList_eq_of_map kept]
      | _ => rfl

theorem depth_printed_le (n bound : Nat) (element : Element) (short : element.depth ≤ bound) :
    (printed (printUpTo n) element).depth ≤ bound := by
  rw [depth_printed]
  exact short

/-- A bound on the depth of types is as good as any other. -/
theorem printUpTo_of_depth_le (n : Nat) : ∀ (m : Nat) (element : Element), element.depth ≤ n →
    element.depth ≤ m → printUpTo n element = printUpTo m element := by
  induction n with
  | zero =>
      intro m element shallow _
      cases element with
      | inlineType info elements => rw [depth_inlineType] at shallow; omega
      | function f => rw [printUpTo_function, printUpTo_function]
      | _ => cases m <;> rfl
  | succ n ih =>
      intro m element shallow shallow'
      cases element with
      | inlineType info elements =>
          rw [depth_inlineType] at shallow shallow'
          cases m with
          | zero => omega
          | succ m =>
              have same (element : Element) (short : element.depth ≤ depthList elements) :
                  printUpTo n element = printUpTo m element :=
                ih m element (by omega) (by omega)
              have body := placeElements_congr same (depth_printed_le n _)
                info.separateBlocks elements (fun _ => depth_le_depthList) {}
              rw [printUpTo_inlineType, printUpTo_inlineType, body]
      | function f => rw [printUpTo_function, printUpTo_function]
      | _ => cases m <;> rfl

theorem print_inlineType (info : TypeInfo) (elements : List Element) :
    print (.inlineType info elements) =
      let body := placeElements print info.separateBlocks {} elements
      let lines := info.qualify.opening ++ [info.qualify.classLine info.qualify.base?] ++
        body.pieces.map Piece.text ++ ["\x7d;"] ++ info.qualify.closing
      ⟨"\n".intercalate lines, .inlineType info.qualify body.after, body.notices⟩ := by
  have same (element : Element) (short : element.depth ≤ depthList elements) :
      printUpTo (depthList elements) element = print element :=
    printUpTo_of_depth_le _ _ element short (Nat.le_refl _)
  have body := placeElements_congr same (depth_printed_le _ _) info.separateBlocks elements
    (fun _ => depth_le_depthList) {}
  rw [print, depth_inlineType, printUpTo_inlineType, ← body]

theorem print_property (p : Property) :
    print (.property p) = ⟨p.settle.text, .property p.settle, []⟩ :=
  rfl

theorem print_function (f : Function) :
    print (.function f) = ⟨f.settle.1.text, .function f.settle.1, f.settle.2⟩ :=
  printUpTo_function _ f

theorem print_component (info : ComponentInfo) (elements : List Element) :
    print (.component info elements) =
      ⟨objectText info elements, .component info elements, []⟩ :=
  printUpTo_component _ info elements

/-- Printing changes only properties, functions and types. -/
theorem printed_cases (element : Element) :
    printed print element = element ∨
      (∃ p, element = .property p ∧ printed print element = .property p.settle) ∨
      (∃ f, element = .function f ∧ printed print element = .function f.settle.1) ∨
      ∃ info elements after, element = .inlineType info elements ∧
        printed print element = .inlineType info.qualify after := by
  cases element with
  | property p => exact Or.inr (Or.inl ⟨p, rfl, rfl⟩)
  | function f => exact Or.inr (Or.inr (Or.inl ⟨f, rfl, by rw [printed, print_function]⟩))
  | inlineType info elements =>
      let after := (placeElements print info.separateBlocks {} elements).after
      refine Or.inr (Or.inr (Or.inr ⟨info, elements, after, rfl, ?_⟩))
      rw [printed, print_inlineType]
  | component info elements => exact Or.inl (by rw [printed, print_component])
  | _ => exact Or.inl rfl

theorem isPublic_printed (element : Element) :
    (printed print element).isPublic = element.isPublic := by
  rcases printed_cases element with same | ⟨p, rfl, next⟩ | ⟨f, rfl, next⟩ |
    ⟨info, elements, after, rfl, next⟩
  · rw [same]
  all_goals simp only [next, isPublic]

theorem isQuiet_eq_false {element : Element} (notComment : element.isComment = false)
    (long : 0 < (print element).text.length) : isQuiet print element = false := by
  rw [isQuiet, notComment, Bool.false_or, decide_eq_false_iff_not]
  intro empty
  rw [empty] at long
  exact absurd long (by decide)

theorem isQuiet_property (p : Property) : isQuiet print (.property p) = false := by
  apply isQuiet_eq_false rfl
  rw [print_property, Property.length_text]
  omega

theorem isQuiet_function (f : Function) : isQuiet print (.function f) = false := by
  apply isQuiet_eq_false rfl
  rw [print_function, Function.length_text]
  omega

theorem isQuiet_inlineType (info : TypeInfo) (elements : List Element) :
    isQuiet print (.inlineType info elements) = false := by
  apply isQuiet_eq_false rfl
  have ending : "\x7d;".length = 2 := rfl
  rw [print_inlineType]
  simp only [Text.length_intercalate, List.flatMap_append, List.length_append, List.flatMap_cons,
    String.length_toList, ending]
  omega

theorem printed_of_isQuiet {element : Element} (quiet : isQuiet print element = true) :
    printed print element = element := by
  rcases printed_cases element with same | ⟨p, rfl, -⟩ | ⟨f, rfl, -⟩ | ⟨info, elements, _, rfl, -⟩
  · exact same
  · rw [isQuiet_property] at quiet
    cases quiet
  · rw [isQuiet_function] at quiet
    cases quiet
  · rw [isQuiet_inlineType] at quiet
    cases quiet

theorem isQuiet_printed (element : Element) :
    isQuiet print (printed print element) = isQuiet print element := by
  rcases printed_cases element with same | ⟨p, rfl, next⟩ | ⟨f, rfl, next⟩ |
    ⟨info, elements, after, rfl, next⟩
  · rw [same]
  · rw [next, isQuiet_property, isQuiet_property]
  · rw [next, isQuiet_function, isQuiet_function]
  · rw [next, isQuiet_inlineType, isQuiet_inlineType]

/-- From the first printing on, an element and its text stay the same. -/
structure Stable (element : Element) : Prop where
  text : (print (printed print element)).text = (print element).text
  fixed : printed print (printed print element) = printed print element

theorem Stable.iterate_succ {element : Element} (stable : Stable element) (n : Nat) :
    (printed print)^[n + 1] element = printed print element := by
  rw [Function.iterate_succ_apply]
  exact Function.iterate_fixed stable.fixed n

theorem Stable.text_iterate {element : Element} (stable : Stable element) (n : Nat) :
    (print ((printed print)^[n] element)).text = (print element).text := by
  cases n with
  | zero => rfl
  | succ n => rw [stable.iterate_succ, stable.text]

theorem Stable.printed {element : Element} (stable : Stable element) :
    Stable (printed print element) := by
  constructor
  · rw [stable.fixed]
  · rw [stable.fixed, stable.fixed]

theorem memberPiece_map_text (element : Element) (text : String) :
    (memberPiece element text).map Piece.text = if text = "" then [] else [text] := by
  rw [memberPiece]
  split <;> rfl

theorem placeElement_of_stable {element : Element} (stable : Stable element) (separate : Bool)
    (context : Context) :
    let placed := placeElement print separate context element
    placed.1.pieces =
        context.lead separate (accessIn print context element) (print element).text ++
          memberPiece element (print element).text ∧
      placed.1.after = printed print element ∧
      placed.2 = if isQuiet print element then
          { context with afterLine := isLineComment (print element).text }
        else { isPublic := element.isPublic, afterLine := false } := by
  have step := placeElement_eq print separate context element
  dsimp only at step ⊢
  rw [stable.text, stable.text_iterate, stable.text_iterate] at step
  refine ⟨step.1, ?_⟩
  split at step
  next quiet => rw [if_pos quiet, ← stable.iterate_succ]; exact step.2
  next loud => rw [if_neg loud, ← stable.iterate_succ]; exact step.2

/-- A body of elements that stay the same is written again as it was. -/
theorem placeElements_of_stable (separate : Bool) (elements : List Element)
    (stable : ∀ element ∈ elements, Stable element) : ∀ context,
    let now := placeElements print separate context elements
    let again := placeElements print separate context (elements.map (Element.printed print))
    now.after = elements.map (Element.printed print) ∧
      again.after = elements.map (Element.printed print) ∧
      again.pieces.map Piece.text = now.pieces.map Piece.text := by
  induction elements with
  | nil => exact fun _ => ⟨rfl, rfl, rfl⟩
  | cons element later ih =>
      intro context
      rw [List.forall_mem_cons] at stable
      -- both times the element leads to the same context, so the induction goes on from there
      obtain ⟨pieces, after, next⟩ := placeElement_of_stable stable.1 separate context
      obtain ⟨pieces', after', next'⟩ := placeElement_of_stable stable.1.printed separate context
      have access : accessIn print context (Element.printed print element) =
          accessIn print context element := by
        rw [accessIn, accessIn, isQuiet_printed, isPublic_printed]
      rw [stable.1.text, isQuiet_printed, isPublic_printed, ← next] at next'
      rw [stable.1.text, access] at pieces'
      rw [stable.1.fixed] at after'
      obtain ⟨laterAfter, laterAgain, laterPieces⟩ :=
        ih stable.2 (placeElement print separate context element).2
      rw [List.map_cons, placeElements, placeElements]
      dsimp only
      rw [next', after, after', laterAfter, laterAgain, List.map_append, List.map_append,
        laterPieces, pieces, pieces', List.map_append, List.map_append, memberPiece_map_text,
        memberPiece_map_text]
      exact ⟨rfl, rfl, rfl⟩

/-- A kind of declaration that settles when it is printed: a bare one stays as it is, any other
one gets a shorter text. -/
structure Settling (α : Type) where
  wrap : α → Element
  settle : α → α
  text : α → String
  Bare : α → Prop
  print_wrap : ∀ a, (print (wrap a)).text = text (settle a)
  printed_wrap : ∀ a, Element.printed print (wrap a) = wrap (settle a)
  fixed : ∀ a, Bare a → settle a = a
  shorter : ∀ a, ¬Bare a → (text (settle a)).length < (text a).length

def properties : Settling Property where
  wrap := .property
  settle := Property.settle
  text := Property.text
  Bare := Property.Bare
  print_wrap := fun _ => rfl
  printed_wrap := fun _ => rfl
  fixed := Property.settle_of_bare
  shorter := Property.length_text_settle_lt

def functions : Settling Function where
  wrap := .function
  settle := fun f => f.settle.1
  text := Function.text
  Bare := Function.Bare
  print_wrap := fun f => by rw [print_function]
  printed_wrap := fun f => by rw [Element.printed, print_function]
  fixed := fun f bare => by rw [f.settle_of_bare bare]
  shorter := Function.length_text_settle_lt

section

variable {α : Type} (kind : Settling α)

theorem Settling.stable (a : α) (bare : kind.Bare (kind.settle a)) : Stable (kind.wrap a) := by
  have settled := kind.fixed _ bare
  constructor
  · rw [kind.printed_wrap, kind.print_wrap, kind.print_wrap, settled]
  · rw [kind.printed_wrap, kind.printed_wrap, settled]

theorem Settling.length_text_iterate (n : Nat) : ∀ a,
    (print ((Element.printed print)^[n] (kind.wrap a))).text.length ≤
      (print (kind.wrap a)).text.length := by
  induction n with
  | zero => exact fun a => Nat.le_refl _
  | succ n ih =>
      intro a
      have later := ih (kind.settle a)
      rw [Function.iterate_succ_apply, kind.printed_wrap]
      rw [kind.print_wrap] at later ⊢
      by_cases bare : kind.Bare (kind.settle a)
      · rw [kind.fixed _ bare] at later
        exact later
      · exact Nat.le_of_lt (Nat.lt_of_le_of_lt later (kind.shorter _ bare))

theorem Settling.bare_of_text (a : α) {n : Nat}
    (again : (print ((Element.printed print)^[n + 1] (kind.wrap a))).text =
      (print (kind.wrap a)).text) : kind.Bare (kind.settle a) := by
  by_contra typed
  -- the second text is shorter than the first, and no later one is longer than the second
  have shorter := kind.shorter _ typed
  have later := kind.length_text_iterate n (kind.settle a)
  rw [Function.iterate_succ_apply, kind.printed_wrap, kind.print_wrap] at again
  rw [again, kind.print_wrap] at later
  exact absurd shorter (Nat.not_lt.mpr later)

end

mutual

/-- Printing an element once takes all types out of the comments in it. -/
def SettlesAtOnce : Element → Prop
  | property p => p.settle.Bare
  | function f => f.settle.1.Bare
  | inlineType _ elements => AllSettleAtOnce elements
  | _ => True

def AllSettleAtOnce : List Element → Prop
  | [] => True
  | element :: later => SettlesAtOnce element ∧ AllSettleAtOnce later

end

mutual

theorem stable_of_settlesAtOnce : (element : Element) → element.SettlesAtOnce → Stable element
  | comment _, _ => ⟨rfl, rfl⟩
  | attr _, _ => ⟨rfl, rfl⟩
  | signal _, _ => ⟨rfl, rfl⟩
  | enumeration _, _ => ⟨rfl, rfl⟩
  | property p, bare => by
      rw [SettlesAtOnce] at bare
      exact properties.stable p bare
  | function f, bare => by
      rw [SettlesAtOnce] at bare
      apply functions.stable f
      dsimp only [functions]
      exact bare
  | component info elements, _ => by
      constructor
      · rw [Element.printed, print_component, print_component]
      · rw [Element.printed, Element.printed, print_component, print_component]
  | inlineType info elements, settle => by
      have stable := stable_of_allSettleAtOnce elements settle
      obtain ⟨now, again, pieces⟩ :=
        placeElements_of_stable info.separateBlocks elements stable {}
      have separateBlocks : info.qualify.separateBlocks = info.separateBlocks := rfl
      constructor
      · rw [Element.printed, print_inlineType, print_inlineType]
        dsimp only
        rw [now, separateBlocks, pieces, info.qualify_qualify]
      · rw [Element.printed, Element.printed, print_inlineType, print_inlineType]
        dsimp only
        rw [now, separateBlocks, again, info.qualify_qualify]

theorem stable_of_allSettleAtOnce : (elements : List Element) → AllSettleAtOnce elements →
    ∀ element ∈ elements, Stable element
  | [], _ => fun _ member => nomatch member
  | first :: later, ⟨firstSettles, laterSettle⟩ =>
      List.forall_mem_cons.mpr
        ⟨stable_of_settlesAtOnce first firstSettles, stable_of_allSettleAtOnce later laterSettle⟩

end

/-- Only a type that is declared inside of another can print the same again although it has not
settled at once: it prints its own elements more than once. -/
theorem settlesAtOnce_of_text {element : Element} {n : Nat}
    (again : (print ((printed print)^[n + 1] element)).text = (print element).text) :
    element.SettlesAtOnce ∨ ∃ info elements, element = .inlineType info elements := by
  cases element with
  | inlineType info elements => exact Or.inr ⟨info, elements, rfl⟩
  | property p =>
      rw [SettlesAtOnce]
      exact Or.inl (properties.bare_of_text p again)
  | function f =>
      have bare := functions.bare_of_text f again
      dsimp only [functions] at bare
      rw [SettlesAtOnce]
      exact Or.inl bare
  | _ => exact Or.inl trivial

def isLine : Element → Bool
  | comment text => isLineComment text
  | _ => false

theorem isLineComment_of_isQuiet {element : Element} (quiet : isQuiet print element = true) :
    isLineComment (print element).text = element.isLine := by
  cases isComment : element.isComment with
  | true =>
      cases element with
      | comment text => rfl
      | _ => cases isComment
  | false =>
      rw [isQuiet, isComment, Bool.false_or, decide_eq_true_eq] at quiet
      rw [quiet]
      cases element with
      | comment text => cases isComment
      | _ => rfl

theorem isLine_of_not_isQuiet {element : Element} (loud : ¬isQuiet print element = true) :
    element.isLine = false := by
  cases element with
  | comment text => exact absurd rfl loud
  | _ => rfl

/-- The context behind some elements: the access of the last one that has its own, and whether
the very last is a line comment. -/
def contextBehind (earlier : List Element) : Context :=
  { isPublic := ((earlier.filter (!isQuiet print ·)).getLast?.map isPublic).getD false
    afterLine := (earlier.getLast?.map isLine).getD false }

/-- The text that an element has in a body, given the elements before it: the third one behind a
line comment and under the same access, otherwise the second one. -/
def textBehind (earlier : List Element) (element : Element) : String :=
  (print ((printed print)^[(contextBehind earlier).trials element.isPublic] element)).text

theorem contextBehind_concat (earlier : List Element) (element : Element) :
    contextBehind (earlier ++ [element]) =
      if isQuiet print element then { contextBehind earlier with afterLine := element.isLine }
      else { isPublic := element.isPublic, afterLine := false } := by
  rw [contextBehind, contextBehind, List.filter_append, List.getLast?_concat]
  split
  next quiet => simp [quiet]
  next loud => simp [loud, isLine_of_not_isQuiet loud]

theorem textBehind_of_settlesAtOnce (earlier : List Element) {element : Element}
    (settles : element.SettlesAtOnce) : element.textBehind earlier = element.print.text :=
  (stable_of_settlesAtOnce element settles).text_iterate _

theorem settlesAtOnce_of_textBehind {earlier : List Element} {element : Element}
    (same : element.textBehind earlier = element.print.text) :
    element.SettlesAtOnce ∨ ∃ info elements, element = .inlineType info elements := by
  rw [textBehind, Context.trials] at same
  split at same
  · exact settlesAtOnce_of_text same
  · exact settlesAtOnce_of_text same

theorem placeElement_context (separate : Bool) (earlier : List Element) (element : Element) :
    (placeElement print separate (contextBehind earlier) element).2 =
      contextBehind (earlier ++ [element]) := by
  have step := (placeElement_eq print separate (contextBehind earlier) element).2
  rw [contextBehind_concat]
  split at step
  next quiet =>
    rw [step.2, if_pos quiet, Function.iterate_fixed (printed_of_isQuiet quiet),
      isLineComment_of_isQuiet quiet]
  next loud => rw [step.2, if_neg loud]

/-- What a body shows of an element: nothing if it has no text, otherwise its text there, behind
an access or an empty line at most. -/
def Shows (earlier : List Element) (element : Element) (part : List Piece) : Prop :=
  if (print element).text = "" then part = []
  else ∃ lead, part = lead ++ [.member element (textBehind earlier element)] ∧
    (lead = [] ∨ lead = [.access element.isPublic] ∨ lead = [.separator])

theorem text_ne_of_not_isQuiet {element : Element} (loud : ¬isQuiet print element = true) :
    (print element).text ≠ "" := by
  intro empty
  apply loud
  rw [isQuiet, empty, decide_eq_true rfl, Bool.or_true]

theorem isQuiet_iterate (element : Element) (n : Nat) :
    isQuiet print ((printed print)^[n] element) = isQuiet print element := by
  induction n with
  | zero => rfl
  | succ n ih => rw [Function.iterate_succ_apply', isQuiet_printed, ih]

theorem text_iterate_ne_of_not_isQuiet {element : Element} (loud : ¬isQuiet print element = true)
    (n : Nat) : (print ((printed print)^[n] element)).text ≠ "" := by
  apply text_ne_of_not_isQuiet
  rw [isQuiet_iterate]
  exact loud

theorem placeElement_shows (separate : Bool) (earlier : List Element) (element : Element) :
    Shows earlier element
      (placeElement print separate (contextBehind earlier) element).1.pieces := by
  have step := (placeElement_eq print separate (contextBehind earlier) element).1
  rw [step, Shows, textBehind, accessIn, Context.lead, memberPiece]
  by_cases quiet : isQuiet print element = true
  · have fixed := printed_of_isQuiet quiet
    simp only [quiet, if_true, fixed, Function.iterate_fixed fixed, ne_eq, not_true, if_false]
    by_cases empty : (print element).text = ""
    · have noLine : isLineComment "" = false := rfl
      simp [empty, noLine]
    · simp only [empty, if_false]
      refine ⟨_, rfl, ?_⟩
      split
      · exact Or.inr (Or.inr rfl)
      · exact Or.inl rfl
  · have hasText := text_ne_of_not_isQuiet quiet
    have stillHas := text_iterate_ne_of_not_isQuiet quiet
    simp only [quiet, hasText, stillHas, Bool.false_eq_true, if_false]
    refine ⟨_, rfl, ?_⟩
    split
    · exact Or.inr (Or.inl rfl)
    · split
      · exact Or.inr (Or.inr rfl)
      · exact Or.inl rfl

/-- A body consists of one part for each element, in order. -/
def ShowsAll (elements : List Element) (body : List Piece) : Prop :=
  ∃ parts : List (List Piece), body = parts.flatten ∧ parts.length = elements.length ∧
    ∀ i element part, elements[i]? = some element → parts[i]? = some part →
      Shows (elements.take i) element part

theorem placeElements_parts (separate : Bool) (later : List Element) : ∀ earlier : List Element,
    ∃ parts : List (List Piece),
      (placeElements print separate (contextBehind earlier) later).pieces = parts.flatten ∧
        parts.length = later.length ∧
        ∀ i element part, later[i]? = some element → parts[i]? = some part →
          Shows (earlier ++ later.take i) element part := by
  induction later with
  | nil => exact fun _ => ⟨[], rfl, rfl, fun _ _ _ isElement => nomatch isElement⟩
  | cons element later ih =>
      intro earlier
      obtain ⟨parts, body, count, shows⟩ := ih (earlier ++ [element])
      refine ⟨(placeElement print separate (contextBehind earlier) element).1.pieces :: parts, ?_,
        by rw [List.length_cons, List.length_cons, count], ?_⟩
      · rw [placeElements, List.flatten_cons, ← body, ← placeElement_context separate]
      · intro i other part isElement isPart
        cases i with
        | zero =>
            obtain rfl := Option.some.inj isElement
            obtain rfl := Option.some.inj isPart
            rw [List.take_zero, List.append_nil]
            exact placeElement_shows separate earlier element
        | succ i =>
            have shown := shows i other part isElement isPart
            rw [List.append_assoc] at shown
            exact shown

theorem placeElements_showsAll (separate : Bool) (elements : List Element) :
    ShowsAll elements (placeElements print separate {} elements).pieces :=
  placeElements_parts separate elements []

end Element

namespace Document

/-- A class and a type inside of it show each element with its second or its third text. That is
its first text if the first printing takes all types out of its comments, and only then, types
inside of types apart. -/
theorem print_members (doc : Document) (info : TypeInfo) (elements : List Element) :
    ((∃ error, doc.resolveBase.2 = some error ∧ doc.print.outcome = .error error) ∨
        ∃ base body, doc.print.outcome = .ok ("\n".intercalate (doc.usingLines ++
            doc.info.opening ++ [doc.info.classLine base] ++ body.map Element.Piece.text ++
            ["\x7d;"] ++ doc.footerComments ++ doc.info.closing)) ∧
          Element.ShowsAll doc.elements body) ∧
      (∃ body, (Element.print (.inlineType info elements)).text = "\n".intercalate
            (info.qualify.opening ++ [info.qualify.classLine info.qualify.base?] ++
              body.map Element.Piece.text ++ ["\x7d;"] ++ info.qualify.closing) ∧
          Element.ShowsAll elements body) ∧
      ∀ (earlier : List Element) (element : Element),
        (element.SettlesAtOnce → element.textBehind earlier = element.print.text) ∧
          (element.textBehind earlier = element.print.text →
            element.SettlesAtOnce ∨ ∃ info elements, element = .inlineType info elements) := by
  refine ⟨?_, ?_, fun earlier element => ?_⟩
  · rw [print]
    split
    next error failed => exact Or.inl ⟨error, by rw [failed], rfl⟩
    next =>
      exact Or.inr ⟨_, _, rfl, Element.placeElements_showsAll doc.info.separateBlocks doc.elements⟩
  · rw [Element.print_inlineType]
    dsimp only
    exact ⟨_, rfl, Element.placeElements_showsAll info.separateBlocks elements⟩
  · exact ⟨Element.textBehind_of_settlesAtOnce earlier, Element.settlesAtOnce_of_textBehind⟩

/-- Two types in one comment: the property alone has the first of them, in its class it has the
second. -/
theorem print_members_retyped :
    let text := "Item \x7b\n    /** type:int in pixels, formerly type:string */\n" ++
      "    property var size\n\x7d\n"
    let empty : Document := { info := { name := "A" } }
    let doc := (empty.read true (Token.tokenize text).tokens).document
    doc.elements.map (fun element => element.print.text) =
        ["/** in pixels, formerly type:string */\n" ++
          "Q_PROPERTY(int size READ dummyGetter_size_ignore)"] ∧
      doc.print.outcome.toOption = some ("class A : public QtQuick.Item \x7b\npublic:\n" ++
        "/** in pixels, formerly */\nQ_PROPERTY(string size READ dummyGetter_size_ignore)\n" ++
        "\x7d;") := by
  decide +kernel

end Document

end QmlDoc
