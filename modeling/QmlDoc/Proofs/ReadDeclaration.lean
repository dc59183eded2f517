import QmlDoc.Proofs.Outline

set_option autoImplicit false

namespace QmlDoc

theorem spells_nil {tokens : List Token} : Spells tokens [] ↔ tokens = [] := by
  simp [Spells]

theorem spells_cons {tokens : List Token} {kind : Token.Kind} {value : String}
    {shapes : List Shape} :
    Spells tokens ((kind, value) :: shapes) ↔
      ∃ token later, tokens = token :: later ∧ token.kind = kind ∧ token.value = value ∧
        Spells later shapes := by
  constructor
  · intro spelled
    obtain ⟨token, later, rfl, shape, rest⟩ := List.map_eq_cons_iff.mp spelled
    exact ⟨token, later, rfl, congrArg Prod.fst shape, congrArg Prod.snd shape, rest⟩
  · rintro ⟨token, later, rfl, rfl, rfl, rest⟩
    simpa only [Spells, List.map_cons, Token.shape, List.cons.injEq, true_and] using rest

theorem spells_append {tokens : List Token} {first later : List Shape} :
    Spells tokens (first ++ later) ↔
      ∃ front back, tokens = front ++ back ∧ Spells front first ∧ Spells back later := by
  constructor
  · intro spelled
    obtain ⟨front, back, rfl, inFront, inBack⟩ := List.map_eq_append_iff.mp spelled
    exact ⟨front, back, rfl, inFront, inBack⟩
  · rintro ⟨front, back, rfl, inFront, inBack⟩
    simp only [Spells, List.map_append] at *
    rw [inFront, inBack]

theorem Spells.kinds {tokens : List Token} {shapes : List Shape} (spelled : Spells tokens shapes) :
    tokens.map Token.kind = shapes.map Prod.fst := by
  rw [← spelled, List.map_map]
  rfl

theorem Spells.length_eq {tokens : List Token} {shapes : List Shape}
    (spelled : Spells tokens shapes) : tokens.length = shapes.length := by
  rw [← List.length_map Token.shape, spelled]

theorem Spells.shape_mem {tokens : List Token} {shapes : List Shape}
    (spelled : Spells tokens shapes) : ∀ token ∈ tokens, token.shape ∈ shapes := by
  intro token member
  rw [← spelled]
  exact List.mem_map_of_mem member

namespace Argument

open Outline

/-- A comma or the closing parenthesis: what can stand behind a parameter. -/
def IsStop (token : Token) : Prop :=
  token.kind = .char ∧ (token.value = ")" ∨ token.value = ",")

abbrev valueKinds : Expected :=
  .oneOf [.element, .char, .string, .blockStart, .arrayStart]

theorem defaultValueFrom_stop (n : Nat) (value : String) (stop : Token) (rest : List Token)
    (idx : Nat) (isStop : IsStop stop) :
    defaultValueFrom (n + 1) value ⟨stop :: rest, idx⟩ = .ok (value, stop) ⟨rest, idx + 1⟩ := by
  have read := Reading.expect_cons valueKinds stop rest idx
    (by rw [Token.isComment, isStop.1]; rfl) (by rw [isStop.1]; rfl)
  have ends : (decide (stop.value = ")") || decide (stop.value = ",")) = true := by
    simpa only [Bool.or_eq_true, decide_eq_true_eq] using isStop.2
  rw [defaultValueFrom, Reading.bind_of_ok read, if_pos ends]
  rfl

theorem defaultValueFrom_token (n : Nat) (value : String) (token : Token) (rest : List Token)
    (idx : Nat) (isValue : token.kind ∈ [Token.Kind.element, .char, .string])
    (free : token.value ∉ [")", ",", "\x7b", "["]) :
    defaultValueFrom (n + 1) value ⟨token :: rest, idx⟩ =
      defaultValueFrom n (value ++ token.value) ⟨rest, idx + 1⟩ := by
  have read : Reading.expect valueKinds ⟨token :: rest, idx⟩ = .ok token ⟨rest, idx + 1⟩ := by
    simp only [List.mem_cons, List.not_mem_nil, or_false] at isValue
    apply Reading.expect_cons
    · rcases isValue with kindIs | kindIs | kindIs <;> rw [Token.isComment, kindIs] <;> rfl
    · rcases isValue with kindIs | kindIs | kindIs <;> rw [kindIs] <;> rfl
  simp only [List.mem_cons, List.not_mem_nil, or_false, not_or] at free
  rw [defaultValueFrom, Reading.bind_of_ok read]
  simp only [free, decide_false, Bool.or_self, Bool.false_eq_true, if_false]

/-- One round reads one piece of a default value. -/
theorem defaultValueFrom_piece (piece : ValuePiece) (n : Nat) (value : String)
    (tokens rest : List Token) (idx : Nat) (spelled : Spells tokens piece.shapes) :
    defaultValueFrom (n + 1) value ⟨tokens ++ rest, idx⟩ =
      defaultValueFrom n (value ++ piece.text) ⟨rest, idx + tokens.length⟩ := by
  cases piece with
  | token kind text isValue free =>
      obtain ⟨token, later, rfl, kindIs, valueIs, spelled⟩ := spells_cons.mp spelled
      obtain rfl := spells_nil.mp spelled
      rw [← kindIs] at isValue
      rw [← valueIs] at free
      rw [List.cons_append, defaultValueFrom_token n value token _ idx isValue free, valueIs]
      rfl
  | block =>
      obtain ⟨start, later, rfl, startKind, startValue, spelled⟩ := spells_cons.mp spelled
      obtain ⟨stop, later, rfl, stopKind, -, spelled⟩ := spells_cons.mp spelled
      obtain rfl := spells_nil.mp spelled
      have first := Reading.expect_cons valueKinds start (stop :: rest) idx
        (by rw [Token.isComment, startKind]; rfl) (by rw [startKind]; rfl)
      have second := Reading.expect_kind .blockEnd stop rest (idx + 1) stopKind rfl
      rw [List.cons_append, List.cons_append, List.nil_append, defaultValueFrom,
        Reading.bind_of_ok first]
      simp [startValue, Reading.bind_of_ok second, ValuePiece.text]
  | array =>
      obtain ⟨start, later, rfl, startKind, startValue, spelled⟩ := spells_cons.mp spelled
      obtain ⟨stop, later, rfl, stopKind, -, spelled⟩ := spells_cons.mp spelled
      obtain rfl := spells_nil.mp spelled
      have first := Reading.expect_cons valueKinds start (stop :: rest) idx
        (by rw [Token.isComment, startKind]; rfl) (by rw [startKind]; rfl)
      have second := Reading.expect_kind .arrayEnd stop rest (idx + 1) stopKind rfl
      rw [List.cons_append, List.cons_append, List.nil_append, defaultValueFrom,
        Reading.bind_of_ok first]
      simp [startValue, Reading.bind_of_ok second, ValuePiece.text]

theorem ValuePiece.shapes_length_pos (piece : ValuePiece) : 0 < piece.shapes.length := by
  cases piece <;> simp [ValuePiece.shapes]

theorem defaultValueFrom_pieces (pieces : List ValuePiece) (stop : Token) (rest : List Token)
    (isStop : IsStop stop) : ∀ (n : Nat) (value : String) (tokens : List Token) (idx : Nat),
    Spells tokens (pieces.flatMap ValuePiece.shapes) → tokens.length < n →
    defaultValueFrom n value ⟨tokens ++ stop :: rest, idx⟩ =
      .ok (value ++ String.join (pieces.map ValuePiece.text), stop)
        ⟨rest, idx + tokens.length + 1⟩ := by
  induction pieces with
  | nil =>
      intro n value tokens idx spelled enough
      obtain rfl := spells_nil.mp spelled
      obtain ⟨n, rfl⟩ : ∃ m, n = m + 1 := ⟨n - 1, by omega⟩
      simpa using defaultValueFrom_stop n value stop rest idx isStop
  | cons piece pieces ih =>
      intro n value tokens idx spelled enough
      rw [List.flatMap_cons, spells_append] at spelled
      obtain ⟨front, back, rfl, inFront, inBack⟩ := spelled
      obtain ⟨n, rfl⟩ : ∃ m, n = m + 1 := ⟨n - 1, by omega⟩
      have positive := ValuePiece.shapes_length_pos piece
      rw [← inFront, List.length_map] at positive
      have shorter : back.length < n := by
        rw [List.length_append] at enough
        omega
      rw [List.append_assoc, defaultValueFrom_piece piece n value front _ idx inFront,
        ih n _ back _ inBack shorter]
      simp only [List.map_cons, String.join_cons, String.append_assoc, List.length_append,
        Nat.add_assoc]

/-- The reader makes of the parameter what it stands for, when its first word is read
already. -/
def Reads (typed : Bool) (parameter : Parameter) : Prop :=
  ∀ (first stop : Token) (tokens rest : List Token) (idx : Nat),
    first.value = parameter.first → Spells tokens parameter.rest → IsStop stop →
    readFrom typed parameter.isSpread first ⟨tokens ++ stop :: rest, idx⟩ =
      .ok (parameter.argument, stop) ⟨rest, idx + tokens.length + 1⟩

theorem IsStop.ne {stop : Token} (isStop : IsStop stop) :
    stop.value ≠ "=" ∧ stop.value ≠ ":" := by
  rcases isStop.2 with valueIs | valueIs <;> rw [valueIs] <;> decide

theorem reads_signalParameter (parameter : SignalParameter) : Reads true parameter.written := by
  intro first stop tokens rest idx firstIs spelled isStop
  obtain ⟨name, later, rfl, nameKind, nameIs, spelled⟩ := spells_cons.mp spelled
  obtain rfl := spells_nil.mp spelled
  have readName := Reading.expect_kind .element name (stop :: rest) idx nameKind rfl
  have readStop := Reading.expect_kind .char stop rest (idx + 1) isStop.1 rfl
  unfold readFrom
  simp only [List.cons_append, List.nil_append, if_true, pure_bind, Reading.bind_of_ok readName,
    Reading.bind_of_ok readStop, isStop.ne, if_false, Reading.pure_apply, nameIs, firstIs]
  rfl

theorem reads_functionParameter (parameter : FunctionParameter) :
    Reads false parameter.written := by
  obtain ⟨isSpread, name, ending⟩ := parameter
  intro first stop tokens rest idx firstIs spelled isStop
  unfold readFrom
  simp only [Bool.false_eq_true, if_false, pure_bind]
  cases ending with
  | bare =>
      obtain rfl := spells_nil.mp spelled
      have readStop := Reading.expect_kind .char stop rest idx isStop.1 rfl
      simp only [List.nil_append, Reading.bind_of_ok readStop, isStop.ne, if_false,
        Reading.pure_apply, firstIs]
      rfl
  | typed type =>
      obtain ⟨colon, later, rfl, colonKind, colonIs, spelled⟩ := spells_cons.mp spelled
      obtain ⟨name, later, rfl, nameKind, nameIs, spelled⟩ := spells_cons.mp spelled
      obtain rfl := spells_nil.mp spelled
      have readColon := Reading.expect_kind .char colon (name :: stop :: rest) idx colonKind rfl
      have readName := Reading.expect_kind .element name (stop :: rest) (idx + 1) nameKind rfl
      have readStop := Reading.expect_kind .char stop rest (idx + 1 + 1) isStop.1 rfl
      have notValue : ":" ≠ "=" := by decide
      simp only [List.cons_append, List.nil_append, Reading.bind_of_ok readColon, colonIs,
        notValue, if_false, if_true, Reading.bind_of_ok readName, Reading.bind_of_ok readStop,
        Reading.pure_apply, nameIs, firstIs]
      rfl
  | valued pieces =>
      obtain ⟨equals, later, rfl, equalsKind, equalsIs, spelled⟩ := spells_cons.mp spelled
      have readEquals := Reading.expect_kind .char equals (later ++ stop :: rest) idx equalsKind rfl
      have readValue := defaultValueFrom_pieces pieces stop rest isStop
        ((later ++ stop :: rest).length + 1) "" later (idx + 1) spelled
        (by rw [List.length_append]; omega)
      simp only [List.cons_append, Reading.bind_of_ok readEquals, equalsIs, if_true,
        Reading.get_bind, Reading.bind_of_ok readValue, isStop.ne, if_false, Reading.pure_apply,
        firstIs, String.empty_append, List.length_cons, Nat.add_assoc, Nat.add_comm 1]
      rfl

theorem listFrom_spelled (typed : Bool) (close : Token) (rest : List Token)
    (closeKind : close.kind = .char) (closeIs : close.value = ")") (later : List Parameter) :
    ∀ (n : Nat) (parameter : Parameter) (first : Token) (tokens : List Token) (idx : Nat),
    (∀ each ∈ parameter :: later, Reads typed each) →
    first.value = parameter.first →
    Spells tokens (parameter.rest ++ later.flatMap fun next => (.char, ",") :: next.shapes) →
    tokens.length < n →
    listFrom typed n parameter.isSpread first ⟨tokens ++ close :: rest, idx⟩ =
      .ok ((parameter :: later).map Parameter.argument) ⟨rest, idx + tokens.length + 1⟩ := by
  induction later with
  | nil =>
      intro n parameter first tokens idx reads firstIs spelled enough
      obtain ⟨n, rfl⟩ : ∃ m, n = m + 1 := ⟨n - 1, by omega⟩
      rw [List.flatMap_nil, List.append_nil] at spelled
      have readOne := reads parameter (by simp) first close tokens rest idx firstIs spelled
        ⟨closeKind, Or.inl closeIs⟩
      rw [listFrom, Reading.bind_of_ok readOne]
      simp [closeIs, Reading.pure_apply]
  | cons next later ih =>
      intro n parameter first tokens idx reads firstIs spelled enough
      obtain ⟨n, rfl⟩ : ∃ m, n = m + 1 := ⟨n - 1, by omega⟩
      rw [List.flatMap_cons, spells_append] at spelled
      obtain ⟨front, back, rfl, inFront, inBack⟩ := spelled
      obtain ⟨comma, back, rfl, commaKind, commaIs, inBack⟩ := spells_cons.mp inBack
      have readOne := reads parameter (by simp) first comma front (back ++ close :: rest) idx
        firstIs inFront ⟨commaKind, Or.inr commaIs⟩
      have laterReads : ∀ each ∈ next :: later, Reads typed each :=
        fun each member => reads each (List.mem_cons_of_mem _ member)
      rw [List.append_assoc, List.cons_append, listFrom, Reading.bind_of_ok readOne]
      have notClose : "," ≠ ")" := by decide
      simp only [commaIs, notClose, if_false, ne_eq, not_true_eq_false]
      rw [List.length_append, List.length_cons] at enough
      rw [Parameter.shapes] at inBack
      cases spread : next.isSpread with
      | false =>
          simp only [spread, Bool.false_eq_true, if_false, List.nil_append] at inBack
          obtain ⟨word, back, rfl, wordKind, wordIs, inBack⟩ := spells_cons.mp inBack
          have readWord := Reading.expect_cons (.oneOf [.element, .ellipses]) word
            (back ++ close :: rest) (idx + front.length + 1)
            (by rw [Token.isComment, wordKind]; rfl) (by rw [wordKind]; rfl)
          have readLater := ih n next word back (idx + front.length + 1 + 1) laterReads wordIs
            inBack (by rw [List.length_cons] at enough; omega)
          rw [spread] at readLater
          rw [List.cons_append, Reading.bind_of_ok readWord]
          simp only [wordKind, reduceCtorEq, if_false]
          rw [Reading.bind_of_ok readLater]
          exact Reading.ok_at _ _ (by simp only [List.length_append, List.length_cons]; omega)
      | true =>
          simp only [spread, if_true, List.cons_append, List.nil_append] at inBack
          obtain ⟨dots, back, rfl, dotsKind, -, inBack⟩ := spells_cons.mp inBack
          obtain ⟨word, back, rfl, wordKind, wordIs, inBack⟩ := spells_cons.mp inBack
          have readDots := Reading.expect_cons (.oneOf [.element, .ellipses]) dots
            (word :: (back ++ close :: rest)) (idx + front.length + 1)
            (by rw [Token.isComment, dotsKind]; rfl) (by rw [dotsKind]; rfl)
          have readWord := Reading.expect_kind .element word (back ++ close :: rest)
            (idx + front.length + 1 + 1) wordKind rfl
          have readLater := ih n next word back (idx + front.length + 1 + 1 + 1) laterReads
            wordIs inBack (by simp only [List.length_cons] at enough; omega)
          rw [spread] at readLater
          rw [List.cons_append, List.cons_append, Reading.bind_of_ok readDots]
          simp only [dotsKind, if_true]
          rw [Reading.bind_of_ok readWord, Reading.bind_of_ok readLater]
          exact Reading.ok_at _ _ (by simp only [List.length_append, List.length_cons]; omega)

/-- The list of parameters behind its opening parenthesis. -/
theorem readList_spelled (typed : Bool) (parameters : List Parameter)
    (tokens : List Token) (close : Token) (rest : List Token) (idx : Nat)
    (reads : ∀ parameter ∈ parameters, Reads typed parameter)
    (spelled : Spells tokens (Parameter.listShapes parameters))
    (closeKind : close.kind = .char) (closeIs : close.value = ")") :
    readList typed ⟨tokens ++ close :: rest, idx⟩ =
      .ok (parameters.map Parameter.argument) ⟨rest, idx + tokens.length + 1⟩ := by
  unfold readList
  cases parameters with
  | nil =>
      obtain rfl := spells_nil.mp spelled
      have readClose := Reading.code_cons close rest idx (by rw [Token.isComment, closeKind]; rfl)
      rw [List.nil_append, Reading.bind_of_ok readClose, Reading.get_bind]
      simp [closeKind, closeIs, Reading.pure_apply]
  | cons parameter later =>
      rw [Parameter.listShapes, Parameter.shapes, List.append_assoc, List.cons_append] at spelled
      cases spread : parameter.isSpread with
      | false =>
          simp only [spread, Bool.false_eq_true, if_false, List.nil_append] at spelled
          obtain ⟨word, tokens, rfl, wordKind, wordIs, spelled⟩ := spells_cons.mp spelled
          have readWord := Reading.code_cons word (tokens ++ close :: rest) idx
            (by rw [Token.isComment, wordKind]; rfl)
          have readAll := listFrom_spelled typed close rest closeKind closeIs later
            ((tokens ++ close :: rest).length + 1) parameter word tokens (idx + 1) reads wordIs
            spelled (by rw [List.length_append]; omega)
          rw [spread] at readAll
          rw [List.cons_append, Reading.bind_of_ok readWord, Reading.get_bind]
          simp only [wordKind, reduceCtorEq, decide_false, Bool.false_and, Bool.false_eq_true,
            if_false, if_true]
          rw [readAll]
          exact Reading.ok_at _ _ (by simp only [List.length_cons]; omega)
      | true =>
          simp only [spread, if_true, List.cons_append, List.nil_append] at spelled
          obtain ⟨dots, tokens, rfl, dotsKind, -, spelled⟩ := spells_cons.mp spelled
          obtain ⟨word, tokens, rfl, wordKind, wordIs, spelled⟩ := spells_cons.mp spelled
          have readDots := Reading.code_cons dots (word :: (tokens ++ close :: rest)) idx
            (by rw [Token.isComment, dotsKind]; rfl)
          have readWord := Reading.expect_kind .element word (tokens ++ close :: rest) (idx + 1)
            wordKind rfl
          have readAll := listFrom_spelled typed close rest closeKind closeIs later
            ((word :: (tokens ++ close :: rest)).length + 1) parameter word tokens (idx + 1 + 1)
            reads wordIs spelled (by simp only [List.length_cons, List.length_append]; omega)
          rw [spread] at readAll
          rw [List.cons_append, List.cons_append, Reading.bind_of_ok readDots, Reading.get_bind]
          simp only [dotsKind, reduceCtorEq, decide_false, Bool.false_and, Bool.false_eq_true,
            if_false, if_true]
          rw [Reading.bind_of_ok readWord, readAll]
          exact Reading.ok_at _ _ (by simp only [List.length_cons]; omega)

end Argument

open Outline

namespace Enumerator

def withInline (enumerator : Enumerator) (comment : Option String) : Enumerator :=
  (comment.map fun text => { enumerator with doc := ⟨text, true⟩ }).getD enumerator

/-- The end of a constant: the comma behind it or the end of the block. -/
def IsEnd (ended : Bool) (stop : Token) : Prop :=
  if ended then stop.kind = .blockEnd else stop.kind = .char ∧ stop.value = ","

theorem restFrom_cons (n : Nat) (enumerator : Enumerator) (token : Token) (rest : List Token)
    (idx : Nat) :
    restFrom (n + 1) enumerator ⟨token :: rest, idx⟩ =
      (match token.kind with
        | .inlineComment => restFrom n { enumerator with doc := Doc.ofToken token }
        | .comment => restFrom n enumerator
        | .blockEnd => pure (enumerator, true)
        | .char =>
            if token.value = "," then
              pure (enumerator, false)
            else if token.value = "=" then
              (do
                let value ← Reading.expect (.one .element)
                restFrom n { enumerator with initializer := value.value })
            else
              restFrom n enumerator
        | _ => .fail (.unexpected token) : Reading (Enumerator × Bool)) ⟨rest, idx + 1⟩ := by
  rfl

theorem restFrom_end (n : Nat) (enumerator : Enumerator) (ended : Bool) (stop : Token)
    (rest : List Token) (idx : Nat) (isEnd : IsEnd ended stop) :
    restFrom (n + 1) enumerator ⟨stop :: rest, idx⟩ =
      .ok (enumerator, ended) ⟨rest, idx + 1⟩ := by
  rw [restFrom_cons]
  cases ended with
  | false =>
      obtain ⟨kindIs, valueIs⟩ := isEnd
      simp only [kindIs, valueIs, if_true, Reading.pure_apply]
  | true =>
      have kindIs : stop.kind = .blockEnd := isEnd
      simp only [kindIs, Reading.pure_apply]

theorem restFrom_inline (n : Nat) (enumerator : Enumerator) (comment : Option String)
    (tokens rest : List Token) (idx : Nat)
    (spelled : Spells tokens (Constant.inlineShapes comment)) :
    restFrom (n + tokens.length) enumerator ⟨tokens ++ rest, idx⟩ =
      restFrom n (enumerator.withInline comment) ⟨rest, idx + tokens.length⟩ := by
  cases comment with
  | none =>
      obtain rfl := spells_nil.mp spelled
      rfl
  | some text =>
      obtain ⟨token, later, rfl, kindIs, valueIs, spelled⟩ := spells_cons.mp spelled
      obtain rfl := spells_nil.mp spelled
      rw [List.length_singleton, List.singleton_append, restFrom_cons]
      simp [kindIs, Doc.ofToken, valueIs, withInline]

theorem restFrom_initializer (n : Nat) (enumerator : Enumerator) (initializer : Option String)
    (unset : enumerator.initializer = "") (tokens rest : List Token) (idx : Nat)
    (spelled : Spells tokens (Constant.initializerShapes initializer)) :
    ∃ m, n ≤ m ∧ restFrom (n + tokens.length) enumerator ⟨tokens ++ rest, idx⟩ =
      restFrom m { enumerator with initializer := initializer.getD "" }
        ⟨rest, idx + tokens.length⟩ := by
  cases initializer with
  | none =>
      obtain rfl := spells_nil.mp spelled
      refine ⟨n, Nat.le_refl n, ?_⟩
      rw [Option.getD_none, ← unset]
      rfl
  | some value =>
      obtain ⟨equals, later, rfl, equalsKind, equalsIs, spelled⟩ := spells_cons.mp spelled
      obtain ⟨token, later, rfl, tokenKind, tokenIs, spelled⟩ := spells_cons.mp spelled
      obtain rfl := spells_nil.mp spelled
      have readValue := Reading.expect_kind .element token rest (idx + 1) tokenKind rfl
      refine ⟨n + 1, Nat.le_succ n, ?_⟩
      have notComma : "=" ≠ "," := by decide
      change restFrom (n + 1 + 1) enumerator ⟨equals :: token :: rest, idx⟩ = _
      rw [restFrom_cons]
      simp only [equalsKind, equalsIs, notComma, if_false, if_true]
      rw [Reading.bind_of_ok readValue, tokenIs]
      rfl

/-- A constant behind its name, with an inline comment before its end. -/
theorem read_spelled (name : String) (initializer comment : Option String) (ended : Bool)
    (tokens : List Token) (stop : Token) (rest : List Token) (idx : Nat)
    (spelled : Spells tokens
      (Constant.initializerShapes initializer ++ Constant.inlineShapes comment))
    (isEnd : IsEnd ended stop) :
    read name ⟨tokens ++ stop :: rest, idx⟩ =
      .ok (withInline { name, initializer := initializer.getD "" } comment, ended)
        ⟨rest, idx + tokens.length + 1⟩ := by
  obtain ⟨front, back, rfl, inFront, inBack⟩ := spells_append.mp spelled
  obtain ⟨m, bound, initialized⟩ := restFrom_initializer (back.length + (stop :: rest).length + 1)
    { name } initializer rfl front (back ++ stop :: rest) idx inFront
  obtain ⟨m, rfl⟩ : ∃ k, m = k + 1 + back.length := ⟨m - 1 - back.length, by omega⟩
  have rounds : (front ++ back ++ stop :: rest).length + 1 =
      back.length + (stop :: rest).length + 1 + front.length := by
    simp only [List.length_append]
    omega
  rw [read, Reading.get_bind, rounds, List.append_assoc, initialized,
    restFrom_inline (m + 1) _ comment back _ _ inBack, restFrom_end m _ ended stop _ _ isEnd]
  exact Reading.ok_at _ _ (by rw [List.length_append]; omega)

end Enumerator

namespace Enumeration

def documented (comment : Option String) (enumerator : Enumerator) : Enumerator :=
  match comment with
  | none => enumerator
  | some text => { enumerator with doc := { enumerator.doc with text } }

theorem bodyFrom_cons (n : Nat) (enumeration : Enumeration) (pending : Option Token)
    (last : Option Enumerator) (token : Token) (rest : List Token) (idx : Nat) :
    bodyFrom (n + 1) enumeration pending last ⟨token :: rest, idx⟩ =
      (match token.kind with
        | .inlineComment =>
            match last with
            | none => bodyFrom n { enumeration with doc := Doc.ofToken token } pending none
            | some enumerator =>
                bodyFrom n enumeration pending (some { enumerator with doc := Doc.ofToken token })
        | .comment => bodyFrom n enumeration (some token) last
        | .blockEnd => pure (enumeration.close last)
        | .element => do
            let (enumerator, ended) ← Enumerator.read token.value
            let found := documented (pending.map Token.value) enumerator
            if ended then
              pure ((enumeration.add last).close (some found))
            else
              bodyFrom n (enumeration.add last) none (some found)
        | .char =>
            if token.value = "," then bodyFrom n enumeration pending last
            else .fail (.unexpected token)
        | _ => .fail (.unexpected token) : Reading Enumeration) ⟨rest, idx + 1⟩ := by
  cases pending <;> rfl

theorem bodyFrom_element (n : Nat) (enumeration : Enumeration) (pending : Option Token)
    (last : Option Enumerator) (token : Token) (rest : List Token) (idx : Nat)
    (kindIs : token.kind = .element) {enumerator : Enumerator} {ended : Bool} {after : Reader}
    (read : Enumerator.read token.value ⟨rest, idx + 1⟩ = .ok (enumerator, ended) after) :
    bodyFrom (n + 1) enumeration pending last ⟨token :: rest, idx⟩ =
      let found := documented (pending.map Token.value) enumerator
      if ended then .ok ((enumeration.add last).close (some found)) after
      else bodyFrom n (enumeration.add last) none (some found) after := by
  rw [bodyFrom_cons]
  simp only [kindIs]
  rw [Reading.bind_of_ok read]
  cases ended <;> rfl

/-- A constant up to its end takes at most as many rounds as it has tokens. -/
theorem bodyFrom_stem (constant : Constant) (comment : Option String) (ended : Bool) (n : Nat)
    (enumeration : Enumeration) (last : Option Enumerator) (tokens : List Token) (stop : Token)
    (rest : List Token) (idx : Nat)
    (spelled : Spells tokens (constant.stemShapes ++ Constant.inlineShapes comment))
    (isEnd : Enumerator.IsEnd ended stop) :
    let found := documented constant.note.before? <| Enumerator.withInline
      { name := constant.name, initializer := constant.initializer.getD "" } comment
    ∃ m, n ≤ m ∧
      bodyFrom (n + tokens.length) enumeration none last ⟨tokens ++ stop :: rest, idx⟩ =
        if ended then .ok ((enumeration.add last).close (some found))
          ⟨rest, idx + tokens.length + 1⟩
        else bodyFrom m (enumeration.add last) none (some found)
          ⟨rest, idx + tokens.length + 1⟩ := by
  intro found
  rw [Constant.stemShapes, List.append_assoc, List.cons_append] at spelled
  cases before : constant.note.before? with
  | none =>
      rw [before] at spelled
      obtain ⟨name, tokens, rfl, nameKind, nameIs, spelled⟩ := spells_cons.mp spelled
      have read := Enumerator.read_spelled name.value constant.initializer comment ended tokens
        stop rest (idx + 1) spelled isEnd
      refine ⟨n + tokens.length, Nat.le_add_right n _, ?_⟩
      have place : idx + (name :: tokens).length + 1 = idx + 1 + tokens.length + 1 := by
        rw [List.length_cons]
        omega
      rw [place, List.length_cons, ← Nat.add_assoc, List.cons_append,
        bodyFrom_element _ _ none last name _ idx nameKind read, nameIs]
      simp only [found, before, Option.map_none]
  | some text =>
      rw [before] at spelled
      obtain ⟨doc, tokens, rfl, docKind, docIs, spelled⟩ := spells_cons.mp spelled
      obtain ⟨name, tokens, rfl, nameKind, nameIs, spelled⟩ := spells_cons.mp spelled
      have read := Enumerator.read_spelled name.value constant.initializer comment ended tokens
        stop rest (idx + 1 + 1) spelled isEnd
      refine ⟨n + tokens.length, Nat.le_add_right n _, ?_⟩
      have place : idx + (doc :: name :: tokens).length + 1 =
          idx + 1 + 1 + tokens.length + 1 := by
        simp only [List.length_cons]
        omega
      rw [place, List.length_cons, List.length_cons, ← Nat.add_assoc, ← Nat.add_assoc,
        List.cons_append, List.cons_append, bodyFrom_cons]
      simp only [docKind]
      rw [bodyFrom_element _ _ (some doc) last name _ _ nameKind read, nameIs]
      simp only [found, before, Option.map_some, docIs]

theorem bodyFrom_inline (n : Nat) (enumeration : Enumeration) (enumerator : Enumerator)
    (comment : Option String) (tokens rest : List Token) (idx : Nat)
    (spelled : Spells tokens (Constant.inlineShapes comment)) :
    bodyFrom (n + tokens.length) enumeration none (some enumerator) ⟨tokens ++ rest, idx⟩ =
      bodyFrom n enumeration none (some (enumerator.withInline comment))
        ⟨rest, idx + tokens.length⟩ := by
  cases comment with
  | none =>
      obtain rfl := spells_nil.mp spelled
      rfl
  | some text =>
      obtain ⟨token, later, rfl, kindIs, valueIs, spelled⟩ := spells_cons.mp spelled
      obtain rfl := spells_nil.mp spelled
      rw [List.length_singleton, List.singleton_append, bodyFrom_cons]
      simp [kindIs, Doc.ofToken, valueIs, Enumerator.withInline]

theorem found_withComma (constant : Constant) :
    (documented constant.note.before? <| Enumerator.withInline
      { name := constant.name, initializer := constant.initializer.getD "" }
        (constant.note.at? false)).withInline (constant.note.at? true) = constant.enumerator := by
  obtain ⟨name, initializer, note⟩ := constant
  cases note with
  | absent => rfl
  | before text => rfl
  | after text behindComma => cases behindComma <;> rfl

theorem found_alone (constant : Constant) :
    (documented constant.note.before? <| Enumerator.withInline
      { name := constant.name, initializer := constant.initializer.getD "" }
        constant.note.after?) = constant.enumerator := by
  obtain ⟨name, initializer, note⟩ := constant
  cases note <;> rfl

theorem bodyFrom_withComma (constant : Constant) (n : Nat) (enumeration : Enumeration)
    (last : Option Enumerator) (tokens rest : List Token) (idx : Nat)
    (spelled : Spells tokens constant.shapesWithComma) :
    ∃ m, n ≤ m ∧ bodyFrom (n + tokens.length) enumeration none last ⟨tokens ++ rest, idx⟩ =
      bodyFrom m (enumeration.add last) none (some constant.enumerator)
        ⟨rest, idx + tokens.length⟩ := by
  rw [Constant.shapesWithComma, ← List.append_assoc, spells_append] at spelled
  obtain ⟨front, back, rfl, inFront, inBack⟩ := spelled
  obtain ⟨comma, back, rfl, commaKind, commaIs, inBack⟩ := spells_cons.mp inBack
  obtain ⟨m, bound, read⟩ := bodyFrom_stem constant (constant.note.at? false) false
    (n + 1 + back.length) enumeration last front comma (back ++ rest) idx inFront
    ⟨commaKind, commaIs⟩
  obtain ⟨m, rfl⟩ : ∃ k, m = k + back.length := ⟨m - back.length, by omega⟩
  refine ⟨m, by omega, ?_⟩
  have rounds : n + (front ++ comma :: back).length = n + 1 + back.length + front.length := by
    simp only [List.length_append, List.length_cons]
    omega
  have place : idx + (front ++ comma :: back).length = idx + front.length + 1 + back.length := by
    simp only [List.length_append, List.length_cons]
    omega
  rw [rounds, place, List.append_assoc, List.cons_append, read, if_neg Bool.false_ne_true,
    bodyFrom_inline m _ _ _ back rest _ inBack, found_withComma]

/-- The enumeration with further constants, the last of them marked. -/
def addAll (enumeration : Enumeration) (last : Option Enumerator) (constants : List Constant) :
    Enumeration :=
  match constants with
  | [] => enumeration.close last
  | constant :: later =>
      { enumeration with
        enumerators := enumeration.enumerators ++ last.toList ++
          Constant.enumerators (constant :: later) }

theorem addAll_cons (enumeration : Enumeration) (last : Option Enumerator) (constant : Constant)
    (later : List Constant) :
    addAll (enumeration.add last) (some constant.enumerator) later =
      addAll enumeration last (constant :: later) := by
  cases later with
  | nil => rfl
  | cons next later => simp [addAll, add, Constant.enumerators]

theorem bodyFrom_alone (constant : Constant) (n : Nat) (enumeration : Enumeration)
    (last : Option Enumerator) (tokens : List Token) (stop : Token) (rest : List Token) (idx : Nat)
    (spelled : Spells tokens constant.shapesAlone) (isEnd : stop.kind = .blockEnd) :
    bodyFrom (n + tokens.length) enumeration none last ⟨tokens ++ stop :: rest, idx⟩ =
      .ok (addAll enumeration last [constant]) ⟨rest, idx + tokens.length + 1⟩ := by
  obtain ⟨m, -, read⟩ := bodyFrom_stem constant constant.note.after? true n enumeration last
    tokens stop rest idx spelled isEnd
  rw [read, if_pos rfl, found_alone, ← addAll_cons]
  rfl

theorem listShapes_cons (closingComma : Bool) (constant : Constant) (later : List Constant)
    (followed : closingComma = true ∨ later ≠ []) :
    Constant.listShapes closingComma (constant :: later) =
      constant.shapesWithComma ++ Constant.listShapes closingComma later := by
  cases later with
  | nil =>
      have comma : closingComma = true := followed.resolve_right fun nonempty => nonempty rfl
      simp [Constant.listShapes, comma]
  | cons next later => rfl

theorem bodyFrom_spelled (closingComma : Bool) (constants : List Constant) (stop : Token)
    (rest : List Token) (isEnd : stop.kind = .blockEnd) :
    ∀ (n : Nat) (enumeration : Enumeration) (last : Option Enumerator) (tokens : List Token)
      (idx : Nat), Spells tokens (Constant.listShapes closingComma constants) →
    tokens.length < n →
    bodyFrom n enumeration none last ⟨tokens ++ stop :: rest, idx⟩ =
      .ok (addAll enumeration last constants) ⟨rest, idx + tokens.length + 1⟩ := by
  induction constants with
  | nil =>
      intro n enumeration last tokens idx spelled enough
      obtain rfl := spells_nil.mp spelled
      obtain ⟨n, rfl⟩ : ∃ m, n = m + 1 := ⟨n - 1, by omega⟩
      rw [List.nil_append, bodyFrom_cons]
      simp only [isEnd, Reading.pure_apply]
      rfl
  | cons constant later ih =>
      intro n enumeration last tokens idx spelled enough
      by_cases followed : closingComma = true ∨ later ≠ []
      · rw [listShapes_cons closingComma constant later followed, spells_append] at spelled
        obtain ⟨front, back, rfl, inFront, inBack⟩ := spelled
        rw [List.length_append] at enough
        obtain ⟨m, bound, read⟩ := bodyFrom_withComma constant (n - front.length) enumeration last
          front (back ++ stop :: rest) idx inFront
        rw [Nat.sub_add_cancel (by omega)] at read
        rw [List.append_assoc, read, ih m _ _ back _ inBack (by omega), addAll_cons]
        exact Reading.ok_at _ _ (by rw [List.length_append]; omega)
      · obtain ⟨noComma, rfl⟩ : closingComma = false ∧ later = [] := by simpa using followed
        subst noComma
        have read := bodyFrom_alone constant (n - tokens.length) enumeration last tokens stop rest
          idx spelled isEnd
        rwa [Nat.sub_add_cancel (by omega)] at read

/-- An enumeration behind its keyword. -/
theorem read_spelled (name : String) (constants : List Constant) (closingComma : Bool)
    (tokens rest : List Token) (idx : Nat)
    (spelled : Spells tokens ((.element, name) :: (.blockStart, "\x7b") ::
      (Constant.listShapes closingComma constants ++ [(.blockEnd, "\x7d")]))) :
    read ⟨tokens ++ rest, idx⟩ =
      .ok { name, enumerators := Constant.enumerators constants } ⟨rest, idx + tokens.length⟩ := by
  obtain ⟨word, tokens, rfl, wordKind, wordIs, spelled⟩ := spells_cons.mp spelled
  obtain ⟨start, tokens, rfl, startKind, -, spelled⟩ := spells_cons.mp spelled
  obtain ⟨front, back, rfl, inFront, inBack⟩ := spells_append.mp spelled
  obtain ⟨stop, back, rfl, stopKind, -, inBack⟩ := spells_cons.mp inBack
  obtain rfl := spells_nil.mp inBack
  have readWord := Reading.expect_kind .element word (start :: (front ++ [stop] ++ rest)) idx
    wordKind rfl
  have readStart := Reading.expect_kind .blockStart start (front ++ [stop] ++ rest) (idx + 1)
    startKind rfl
  have all : addAll { name := word.value } none constants =
      { name := word.value, enumerators := Constant.enumerators constants } := by
    cases constants <;> rfl
  rw [read, List.cons_append, List.cons_append, Reading.bind_of_ok readWord,
    Reading.bind_of_ok readStart, Reading.get_bind, List.append_assoc, List.singleton_append,
    bodyFrom_spelled closingComma constants stop rest stopKind _ _ none front _ inFront
      (by rw [List.length_append]; omega), all, wordIs]
  apply Reading.ok_at
  simp only [List.length_cons, List.length_append, List.length_nil]
  omega

end Enumeration

/-- A property behind its keyword. -/
theorem Property.read_spelled (form : PropertyForm) (type name : String) (tokens rest : List Token)
    (idx : Nat) (spelled : Spells tokens [(.element, type), (.element, name)]) :
    Property.read form.keyword ⟨tokens ++ rest, idx⟩ =
      .ok { name, type, isDefault := form = .asDefault, isReadonly := form = .asReadonly }
        ⟨rest, idx + tokens.length⟩ := by
  obtain ⟨first, tokens, rfl, firstKind, firstIs, spelled⟩ := spells_cons.mp spelled
  obtain ⟨second, tokens, rfl, secondKind, secondIs, spelled⟩ := spells_cons.mp spelled
  obtain rfl := spells_nil.mp spelled
  have readFirst := Reading.expect_kind .element first (second :: rest) idx firstKind rfl
  have readSecond := Reading.expect_kind .element second rest (idx + 1) secondKind rfl
  have isDefault : Text.startsWith form.keyword "default" = decide (form = .asDefault) := by
    cases form <;> decide
  have isReadonly : Text.startsWith form.keyword "readonly" = decide (form = .asReadonly) := by
    cases form <;> decide
  rw [Property.read, List.cons_append, List.cons_append, List.nil_append,
    Reading.bind_of_ok readFirst, Reading.bind_of_ok readSecond, isDefault, isReadonly, firstIs,
    secondIs]
  rfl

/-- The parameters with both parentheses, the opening one read already. -/
theorem Argument.readList_closed (typed : Bool) (parameters : List Parameter)
    (tokens rest : List Token) (idx : Nat)
    (reads : ∀ parameter ∈ parameters, Argument.Reads typed parameter)
    (spelled : Spells tokens (Parameter.listShapes parameters ++ [(.char, ")")])) :
    Argument.readList typed ⟨tokens ++ rest, idx⟩ =
      .ok (parameters.map Parameter.argument) ⟨rest, idx + tokens.length⟩ := by
  obtain ⟨front, back, rfl, inFront, inBack⟩ := spells_append.mp spelled
  obtain ⟨close, back, rfl, closeKind, closeIs, inBack⟩ := spells_cons.mp inBack
  obtain rfl := spells_nil.mp inBack
  rw [List.append_assoc, List.singleton_append,
    Argument.readList_spelled typed parameters front close rest idx reads inFront closeKind closeIs,
    List.length_append, ← Nat.add_assoc]
  rfl

/-- A function behind its keyword, up to the end of its parameters. -/
theorem Function.read_spelled (name : String) (parameters : List FunctionParameter)
    (tokens rest : List Token) (idx : Nat)
    (spelled : Spells tokens ((.element, name) :: (.char, "(") ::
      (Parameter.listShapes (parameters.map FunctionParameter.written) ++ [(.char, ")")]))) :
    Function.read ⟨tokens ++ rest, idx⟩ =
      .ok { name, args := parameters.map fun parameter => parameter.written.argument }
        ⟨rest, idx + tokens.length⟩ := by
  obtain ⟨word, tokens, rfl, wordKind, wordIs, spelled⟩ := spells_cons.mp spelled
  obtain ⟨start, tokens, rfl, startKind, startIs, spelled⟩ := spells_cons.mp spelled
  have readWord := Reading.expect_kind .element word (start :: (tokens ++ rest)) idx wordKind rfl
  have readStart := Reading.expectValue_kind .char "(" start (tokens ++ rest) (idx + 1) startKind
    rfl startIs
  have reads : ∀ parameter ∈ parameters.map FunctionParameter.written,
      Argument.Reads false parameter := by
    intro parameter member
    obtain ⟨written, -, rfl⟩ := List.mem_map.mp member
    exact Argument.reads_functionParameter written
  have readArgs := Argument.readList_closed false _ tokens rest (idx + 1 + 1) reads spelled
  rw [List.map_map] at readArgs
  rw [Function.read, List.cons_append, List.cons_append, Reading.bind_of_ok readWord,
    Reading.bind_of_ok readStart, Reading.bind_of_ok readArgs, wordIs]
  exact Reading.ok_at _ _ (by simp only [List.length_cons]; omega)

/-- A signal with parameters behind its keyword. -/
theorem Signal.read_spelled (name : String) (parameters : List SignalParameter)
    (tokens rest : List Token) (idx : Nat)
    (spelled : Spells tokens ((.element, name) :: (.char, "(") ::
      (Parameter.listShapes (parameters.map SignalParameter.written) ++ [(.char, ")")]))) :
    Signal.read ⟨tokens ++ rest, idx⟩ =
      .ok { name, args := parameters.map fun parameter => parameter.written.argument }
        ⟨rest, idx + tokens.length⟩ := by
  obtain ⟨word, tokens, rfl, wordKind, wordIs, spelled⟩ := spells_cons.mp spelled
  obtain ⟨start, tokens, rfl, startKind, startIs, spelled⟩ := spells_cons.mp spelled
  have readWord := Reading.expect_kind .element word (start :: (tokens ++ rest)) idx wordKind rfl
  have readStart := Reading.code_cons start (tokens ++ rest) (idx + 1)
    (by rw [Token.isComment, startKind]; rfl)
  have reads : ∀ parameter ∈ parameters.map SignalParameter.written,
      Argument.Reads true parameter := by
    intro parameter member
    obtain ⟨written, -, rfl⟩ := List.mem_map.mp member
    exact Argument.reads_signalParameter written
  have readArgs := Argument.readList_closed true _ tokens rest (idx + 1 + 1) reads spelled
  have opens : (decide (start.kind = .char) && decide (start.value = "(")) = true := by
    simp [startKind, startIs]
  rw [List.map_map] at readArgs
  rw [Signal.read, List.cons_append, List.cons_append, Reading.bind_of_ok readWord,
    Reading.get_bind, Reading.bind_of_ok readStart, if_pos opens, Reading.bind_of_ok readArgs,
    wordIs]
  exact Reading.ok_at _ _ (by simp only [List.length_cons]; omega)

/-- A signal without parameters. The token that follows its name, comments left aside, tells
that there are none, and all that follows stays unread. -/
theorem Signal.read_bare (word : Token) (comments : List Token) (next : Token)
    (rest : List Token) (idx : Nat) (wordKind : word.kind = .element)
    (areComments : ∀ token ∈ comments, token.isComment = true)
    (nextCode : next.isComment = false) (nextKind : next.kind ≠ .char) :
    Signal.read ⟨word :: (comments ++ next :: rest), idx⟩ =
      .ok { name := word.value } ⟨comments ++ next :: rest, idx + 1⟩ := by
  have readWord := Reading.expect_kind .element word (comments ++ next :: rest) idx wordKind rfl
  have readNext := Reading.code_comments comments next rest (idx + 1) areComments nextCode
  rw [Signal.read, Reading.bind_of_ok readWord, Reading.get_bind, Reading.bind_of_ok readNext]
  simp only [nextKind, decide_false, Bool.false_and, Bool.false_eq_true, if_false]
  rfl

end QmlDoc
