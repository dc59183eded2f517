import Mathlib.Data.List.Forall2
import QmlDoc.Declaration.Printer
import QmlDoc.Proofs.ArgumentGrammar

set_option autoImplicit false

namespace QmlDoc

theorem Token.isComment_iff {token : Token} :
    token.isComment = true ↔ token.kind = .inlineComment ∨ token.kind = .comment := by
  rw [isComment]
  cases token.kind <;> simp [Kind.isComment]

namespace Reader

/-- Exactly these tokens, comments included, stand between `r` and `s`. -/
def Spans (r : Reader) (tokens : List Token) (s : Reader) : Prop :=
  r.rest = tokens ++ s.rest ∧ s.idx = r.idx + tokens.length

theorem spans_nil {r s : Reader} : r.Spans [] s ↔ r = s := by
  obtain ⟨rest, idx⟩ := r
  obtain ⟨later, place⟩ := s
  simp [Spans, eq_comm]

theorem spans_append {r s : Reader} {front back : List Token} :
    r.Spans (front ++ back) s ↔ ∃ t : Reader, r.Spans front t ∧ t.Spans back s := by
  constructor
  · rintro ⟨order, place⟩
    refine ⟨⟨back ++ s.rest, r.idx + front.length⟩, ⟨?_, rfl⟩, rfl, ?_⟩
    · rw [order, List.append_assoc]
    · rw [place, List.length_append, Nat.add_assoc]
  · rintro ⟨t, ⟨order, place⟩, ⟨order', place'⟩⟩
    refine ⟨by rw [order, order', List.append_assoc], ?_⟩
    rw [place', place, List.length_append, Nat.add_assoc]

theorem spans_cons {token : Token} {tokens rest : List Token} {idx : Nat} {s : Reader} :
    Spans ⟨rest, idx⟩ (token :: tokens) s ↔
      ∃ later, rest = token :: later ∧ Spans ⟨later, idx + 1⟩ tokens s := by
  constructor
  · rintro ⟨order, place⟩
    refine ⟨tokens ++ s.rest, order, rfl, ?_⟩
    rw [place, List.length_cons, Nat.add_assoc, Nat.add_comm 1]
  · rintro ⟨later, rfl, order, place⟩
    refine ⟨congrArg _ order, ?_⟩
    rw [place, List.length_cons, Nat.add_assoc, Nat.add_comm 1]

theorem Spans.length_le {r s : Reader} {tokens : List Token} (spans : r.Spans tokens s) :
    s.rest.length ≤ r.rest.length := by
  rw [spans.1, List.length_append]
  exact Nat.le_add_left _ _

theorem Spans.length_lt {r s : Reader} {tokens : List Token} (some : tokens ≠ [])
    (spans : r.Spans tokens s) : s.rest.length < r.rest.length := by
  have positive := List.length_pos_of_ne_nil some
  rw [spans.1, List.length_append]
  omega

/-- A token behind comments that is found stands behind exactly these comments. -/
theorem finds_iff_spans {r s : Reader} {token : Token} :
    r.Finds token s ↔ token.isComment = false ∧ ∃ comments,
      (∀ comment ∈ comments, comment.isComment = true) ∧ r.Spans (comments ++ [token]) s := by
  constructor
  · rintro ⟨comments, order, areComments, isCode, place⟩
    refine ⟨isCode, comments, areComments, by simpa using order, ?_⟩
    rw [place, List.length_append, List.length_singleton, Nat.add_assoc]
  · rintro ⟨isCode, comments, areComments, order, place⟩
    refine ⟨comments, by simpa using order, areComments, isCode, ?_⟩
    rw [place, List.length_append, List.length_singleton, Nat.add_assoc]

end Reader

/-- The last token of a kind. -/
def Token.lastOf? (kind : Token.Kind) (tokens : List Token) : Option Token :=
  (tokens.filter fun token => token.kind = kind).getLast?

namespace Token

theorem lastOf?_append (kind : Kind) (front back : List Token) :
    lastOf? kind (front ++ back) = (lastOf? kind back).or (lastOf? kind front) := by
  rw [lastOf?, List.filter_append, List.getLast?_append, lastOf?, lastOf?]

theorem kind_of_lastOf? {kind : Kind} {tokens : List Token} {token : Token}
    (isLast : lastOf? kind tokens = some token) : token.kind = kind := by
  have member := List.mem_of_getLast? isLast
  simpa using (List.mem_filter.mp member).2

end Token

def Enumerator.noted (enumerator : Enumerator) (note : Option Token) : Enumerator :=
  { enumerator with doc := (note.map Doc.ofToken).getD enumerator.doc }

theorem Enumerator.noted_noted (enumerator : Enumerator) (first second : Option Token) :
    (enumerator.noted first).noted second = enumerator.noted (second.or first) := by
  cases second <;> rfl

namespace Enumeration

open Reading

def IsComma (token : Token) : Prop :=
  token.kind = .char ∧ token.value = ","

/-- A token that can stand between two constants. -/
def IsBetween (token : Token) : Prop :=
  token.isComment = true ∨ IsComma token

/-- Something that stands behind the name of a constant. -/
inductive Detail
  | note (token : Token) (isComment : token.isComment = true)
  /-- An initializer. Comments may stand before its value. -/
  | value (equals : Token) (notes : List Token) (word : Token)
      (isEquals : equals.kind = .char ∧ equals.value = "=")
      (areNotes : ∀ note ∈ notes, note.isComment = true) (isWord : word.kind = .element)
  /-- Any other character, which means nothing. -/
  | mark (token : Token) (isChar : token.kind = .char) (isOther : token.value ∉ [",", "="])

namespace Detail

def tokens : Detail → List Token
  | note token _ | mark token _ _ => [token]
  | value equals notes word _ _ _ => equals :: (notes ++ [word])

def given? : Detail → Option Token
  | value _ _ word _ _ _ => some word
  | _ => none

def inline? : Detail → Option Token
  | note token _ => if token.kind = .inlineComment then some token else none
  | _ => none

def apply (enumerator : Enumerator) (detail : Detail) : Enumerator :=
  { enumerator with
    initializer := (detail.given?.map Token.value).getD enumerator.initializer
    doc := (detail.inline?.map Doc.ofToken).getD enumerator.doc }

theorem kind_of_inline? {detail : Detail} {token : Token} (isInline : detail.inline? = some token) :
    token.kind = .inlineComment := by
  cases detail with
  | note comment =>
      rw [inline?] at isInline
      split at isInline
      · rename_i kindIs
        cases isInline
        exact kindIs
      · cases isInline
  | value | mark => cases isInline

theorem tokens_ne_nil (detail : Detail) : detail.tokens ≠ [] := by
  cases detail with
  | note | value | mark => exact List.cons_ne_nil _ _

end Detail

/-- How the tokens of an enumeration are laid out behind its opening brace. The reader keeps
each constant back until it has seen the next one, so a constant ends with its comma here and
its comment may stand in what follows. -/
inductive Layout
  /-- The closing brace, or no token is left. -/
  | stop (brace : Option Token) (isEnd : ∀ token ∈ brace, token.kind = .blockEnd)
  | between (token : Token) (isBetween : IsBetween token) (later : Layout)
  /-- A constant that ends with the enumeration. -/
  | last (name : Token) (details : List Detail) (brace : Option Token)
      (isName : name.kind = .element) (isEnd : ∀ token ∈ brace, token.kind = .blockEnd)
  /-- A constant up to its comma. -/
  | more (name : Token) (details : List Detail) (comma : Token) (later : Layout)
      (isName : name.kind = .element) (isComma : IsComma comma)

/-- A constant in its surroundings: what stands behind its name, and the tokens between it and the
constants before and behind it. -/
structure Entry where
  name : Token
  details : List Detail
  before : List Token
  behind : List Token

namespace Layout

def tokens : Layout → List Token
  | stop brace _ => brace.toList
  | between token _ later => token :: later.tokens
  | last name details brace _ _ => name :: (details.flatMap Detail.tokens ++ brace.toList)
  | more name details comma later _ _ =>
      name :: (details.flatMap Detail.tokens ++ comma :: later.tokens)

def brace? : Layout → Option Token
  | stop brace _ | last _ _ brace _ _ => brace
  | between _ _ later | more _ _ _ later _ _ => later.brace?

def lead : Layout → List Token
  | between token _ later => token :: later.lead
  | _ => []

/-- The constants, one for each element that is not the value of an initializer. -/
def entriesFrom (before : List Token) : Layout → List Entry
  | stop _ _ => []
  | between token _ later => later.entriesFrom (before ++ [token])
  | last name details _ _ _ => [⟨name, details, before, []⟩]
  | more name details _ later _ _ => ⟨name, details, before, later.lead⟩ :: later.entriesFrom []

def entries (layout : Layout) : List Entry :=
  layout.entriesFrom []

/-- The layout is that of the tokens from `r` to `s`. Without a closing brace no token is left. -/
def Fits (layout : Layout) (r s : Reader) : Prop :=
  r.Spans layout.tokens s ∧ (layout.brace? = none → s.rest = [])

end Layout

/-- A constant ends at `t`, with the end of the block if `ended`: with its comma, with a brace or
because no token is left. -/
def EndsConstant (ended : Bool) (t s : Reader) : Prop :=
  (∃ stop, Enumerator.IsEnd ended stop ∧ t.Spans [stop] s) ∨
    ended = false ∧ t.rest = [] ∧ t = s

theorem Detail.apply_note {token : Token} (isComment : token.isComment = true)
    (enumerator : Enumerator) :
    Detail.apply enumerator (.note token isComment) =
      if token.kind = .inlineComment then { enumerator with doc := Doc.ofToken token }
      else enumerator := by
  rw [apply, inline?]
  split <;> rfl

/-- A detail is read in one round. -/
theorem restFrom_detail (n : Nat) (enumerator : Enumerator) (detail : Detail) {r t : Reader}
    (spans : r.Spans detail.tokens t) :
    Enumerator.restFrom (n + 1) enumerator r =
      Enumerator.restFrom n (detail.apply enumerator) t := by
  obtain ⟨ahead, idx⟩ := r
  cases detail with
  | note token isComment =>
      obtain ⟨rest, rfl, past⟩ := Reader.spans_cons.mp spans
      obtain rfl := Reader.spans_nil.mp past
      rw [Enumerator.restFrom_cons, Detail.apply_note]
      rcases Token.isComment_iff.mp isComment with kindIs | kindIs
      · simp [kindIs]
      · simp [kindIs]
  | value equals notes word isEquals areNotes isWord =>
      obtain ⟨rest, rfl, past⟩ := Reader.spans_cons.mp spans
      have finds := Reader.finds_iff_spans.mpr
        ⟨by rw [Token.isComment, isWord]; rfl, notes, areNotes, past⟩
      have notComma : "=" ≠ "," := by decide
      rw [Enumerator.restFrom_cons]
      simp only [isEquals.1, isEquals.2, notComma, if_false, if_true]
      rw [bind_of_ok (expect_one_eq_ok_iff.mpr ⟨finds, isWord⟩)]
      rfl
  | mark token isChar isOther =>
      obtain ⟨rest, rfl, past⟩ := Reader.spans_cons.mp spans
      obtain rfl := Reader.spans_nil.mp past
      simp only [List.mem_cons, List.not_mem_nil, or_false, not_or] at isOther
      rw [Enumerator.restFrom_cons]
      simp only [isChar, isOther.1, isOther.2, if_false]
      rfl

/-- A round that can be made ends the constant, or starts with a detail. -/
theorem ends_or_detail {n : Nat} {enumerator : Enumerator} {r s : Reader}
    {found : Enumerator × Bool} (read : Enumerator.restFrom (n + 1) enumerator r = .ok found s) :
    found.1 = enumerator ∧ EndsConstant found.2 r s ∨
      ∃ (detail : Detail) (t : Reader), r.Spans detail.tokens t := by
  obtain ⟨rest, idx⟩ := r
  cases rest with
  | nil =>
      obtain ⟨rfl, rfl⟩ := pure_eq_ok_iff.mp read
      exact Or.inl ⟨rfl, Or.inr ⟨rfl, rfl, rfl⟩⟩
  | cons token rest =>
      have next : Reader.Spans ⟨token :: rest, idx⟩ [token] ⟨rest, idx + 1⟩ := ⟨rfl, rfl⟩
      rw [Enumerator.restFrom_cons] at read
      cases kindIs : token.kind with
      | inlineComment =>
          exact Or.inr ⟨.note token (Token.isComment_iff.mpr (.inl kindIs)), _, next⟩
      | comment => exact Or.inr ⟨.note token (Token.isComment_iff.mpr (.inr kindIs)), _, next⟩
      | blockEnd =>
          simp only [kindIs] at read
          obtain ⟨rfl, rfl⟩ := pure_eq_ok_iff.mp read
          exact Or.inl ⟨rfl, Or.inl ⟨token, kindIs, next⟩⟩
      | char =>
          simp only [kindIs] at read
          by_cases isComma : token.value = ","
          · rw [if_pos isComma] at read
            obtain ⟨rfl, rfl⟩ := pure_eq_ok_iff.mp read
            exact Or.inl ⟨rfl, Or.inl ⟨token, ⟨kindIs, isComma⟩, next⟩⟩
          rw [if_neg isComma] at read
          by_cases isEquals : token.value = "="
          · rw [if_pos isEquals] at read
            obtain ⟨word, t, given, -⟩ := bind_eq_ok_iff.mp read
            obtain ⟨finds, isWord⟩ := expect_one_eq_ok_iff.mp given
            obtain ⟨-, notes, areNotes, spans⟩ := Reader.finds_iff_spans.mp finds
            refine Or.inr ⟨.value token notes word ⟨kindIs, isEquals⟩ areNotes isWord, t, ?_⟩
            exact Reader.spans_cons.mpr ⟨rest, rfl, spans⟩
          · exact Or.inr ⟨.mark token kindIs (by simp [isComma, isEquals]), _, next⟩
      | _ =>
          simp only [kindIs] at read
          cases read

/-- One round reads a detail of the constant or ends it. -/
theorem restFrom_round {n : Nat} {enumerator : Enumerator} {r s : Reader}
    {found : Enumerator × Bool} :
    Enumerator.restFrom (n + 1) enumerator r = .ok found s ↔
      found.1 = enumerator ∧ EndsConstant found.2 r s ∨
        ∃ (detail : Detail) (t : Reader), r.Spans detail.tokens t ∧
          Enumerator.restFrom n (detail.apply enumerator) t = .ok found s := by
  constructor
  · intro read
    rcases ends_or_detail read with ends | ⟨detail, t, spans⟩
    · exact Or.inl ends
    · rw [restFrom_detail n enumerator detail spans] at read
      exact Or.inr ⟨detail, t, spans, read⟩
  · rintro (⟨rfl, ⟨stop, isEnd, spans⟩ | ⟨ended, atEnd, rfl⟩⟩ | ⟨detail, t, spans, later⟩)
    · obtain ⟨rest, idx⟩ := r
      obtain ⟨later, rfl, past⟩ := Reader.spans_cons.mp spans
      obtain rfl := Reader.spans_nil.mp past
      exact Enumerator.restFrom_end n _ _ stop later idx isEnd
    · obtain ⟨rest, idx⟩ := r
      obtain rfl : rest = [] := atEnd
      exact pure_eq_ok_iff.mpr ⟨by rw [← ended], rfl⟩
    · rw [restFrom_detail n enumerator detail spans]
      exact later

/-- A constant is read up to its end, detail by detail. -/
theorem restFrom_eq_ok_iff (n : Nat) : ∀ (enumerator : Enumerator) (r : Reader),
    r.rest.length < n → ∀ (found : Enumerator × Bool) (s : Reader),
    Enumerator.restFrom n enumerator r = .ok found s ↔
      ∃ (details : List Detail) (t : Reader), r.Spans (details.flatMap Detail.tokens) t ∧
        found.1 = details.foldl Detail.apply enumerator ∧
        EndsConstant found.2 t s := by
  induction n with
  | zero => intro enumerator r enough; omega
  | succ n ih =>
      intro enumerator r enough found s
      rw [restFrom_round]
      constructor
      · rintro (⟨same, ends⟩ | ⟨detail, t, spans, later⟩)
        · exact ⟨[], r, Reader.spans_nil.mpr rfl, same, ends⟩
        · have shorter := spans.length_lt detail.tokens_ne_nil
          obtain ⟨details, u, others, same, ends⟩ := (ih _ t (by omega) _ _).mp later
          refine ⟨detail :: details, u, ?_, same, ends⟩
          rw [List.flatMap_cons, Reader.spans_append]
          exact ⟨t, spans, others⟩
      · rintro ⟨details, u, spans, same, ends⟩
        cases details with
        | nil =>
            obtain rfl := Reader.spans_nil.mp spans
            exact Or.inl ⟨same, ends⟩
        | cons detail details =>
            rw [List.flatMap_cons, Reader.spans_append] at spans
            obtain ⟨t, spans, others⟩ := spans
            have shorter := spans.length_lt detail.tokens_ne_nil
            refine Or.inr ⟨detail, t, spans, ?_⟩
            exact (ih _ t (by omega) _ _).mpr ⟨details, u, others, same, ends⟩

theorem enumerator_eq_ok_iff {name : String} {r s : Reader} {found : Enumerator × Bool} :
    Enumerator.read name r = .ok found s ↔
      ∃ (details : List Detail) (t : Reader), r.Spans (details.flatMap Detail.tokens) t ∧
        found.1 = details.foldl Detail.apply { name } ∧
        EndsConstant found.2 t s := by
  rw [Enumerator.read, get_bind]
  exact restFrom_eq_ok_iff _ _ r (Nat.lt_succ_self _) found s

/-- The enumeration, while no constant is read yet, has the inline comments as well. -/
def passing (enumeration : Enumeration) (last : Option Enumerator) (note : Option Token) :
    Enumeration :=
  match last with
  | none => { enumeration with doc := (note.map Doc.ofToken).getD enumeration.doc }
  | some _ => enumeration

/-- The body ends at `r`: with its closing brace or because no token is left. -/
def EndsBody (r s : Reader) : Prop :=
  ∃ brace : Option Token, (∀ token ∈ brace, token.kind = .blockEnd) ∧ r.Spans brace.toList s ∧
    (brace = none → s.rest = [])

theorem bodyFrom_stop (n : Nat) (enumeration : Enumeration) (pending : Option Token)
    (last : Option Enumerator) {r s : Reader} (ends : EndsBody r s) :
    bodyFrom (n + 1) enumeration pending last r = .ok (enumeration.close last) s := by
  obtain ⟨ahead, idx⟩ := r
  obtain ⟨brace, isEnd, spans, noBrace⟩ := ends
  cases brace with
  | none =>
      obtain rfl := Reader.spans_nil.mp spans
      obtain rfl : ahead = [] := noBrace rfl
      rfl
  | some token =>
      obtain ⟨rest, rfl, past⟩ := Reader.spans_cons.mp spans
      obtain rfl := Reader.spans_nil.mp past
      rw [bodyFrom_cons]
      simp only [isEnd token rfl]
      rfl

theorem bodyFrom_between (n : Nat) (enumeration : Enumeration) (pending : Option Token)
    (last : Option Enumerator) {token : Token} (isBetween : IsBetween token) {r t : Reader}
    (spans : r.Spans [token] t) :
    bodyFrom (n + 1) enumeration pending last r =
      bodyFrom n (enumeration.passing last (Token.lastOf? .inlineComment [token]))
        ((Token.lastOf? .comment [token]).or pending)
        (last.map fun enumerator => enumerator.noted (Token.lastOf? .inlineComment [token])) t := by
  obtain ⟨ahead, idx⟩ := r
  obtain ⟨rest, rfl, past⟩ := Reader.spans_cons.mp spans
  obtain rfl := Reader.spans_nil.mp past
  rw [bodyFrom_cons]
  rcases isBetween with isComment | ⟨kindIs, isComma⟩
  · rcases Token.isComment_iff.mp isComment with kindIs | kindIs
    · cases last <;> simp [Token.lastOf?, kindIs, passing, Enumerator.noted]
    · cases last <;> simp [Token.lastOf?, kindIs, passing, Enumerator.noted]
  · cases last <;> simp [Token.lastOf?, kindIs, isComma, passing, Enumerator.noted]

theorem bodyFrom_constant (n : Nat) (enumeration : Enumeration) (pending : Option Token)
    (last : Option Enumerator) {name : Token} (isName : name.kind = .element) {r t u : Reader}
    (spans : r.Spans [name] t) {enumerator : Enumerator} {ended : Bool}
    (read : Enumerator.read name.value t = .ok (enumerator, ended) u) :
    bodyFrom (n + 1) enumeration pending last r =
      let made := documented (pending.map Token.value) enumerator
      if ended then .ok ((enumeration.add last).close (some made)) u
      else bodyFrom n (enumeration.add last) none (some made) u := by
  obtain ⟨ahead, idx⟩ := r
  obtain ⟨rest, rfl, past⟩ := Reader.spans_cons.mp spans
  obtain rfl := Reader.spans_nil.mp past
  exact bodyFrom_element n enumeration pending last name rest idx isName read

/-- A round that can be made ends the body, passes a token or reads a constant. -/
theorem bodyFrom_cases {n : Nat} {enumeration found : Enumeration} {pending : Option Token}
    {last : Option Enumerator} {r s : Reader}
    (read : bodyFrom (n + 1) enumeration pending last r = .ok found s) :
    (∃ t, EndsBody r t) ∨
      (∃ (token : Token) (t : Reader), IsBetween token ∧ r.Spans [token] t) ∨
      ∃ (name : Token) (t u : Reader) (enumerator : Enumerator) (ended : Bool),
        name.kind = .element ∧ r.Spans [name] t ∧
          Enumerator.read name.value t = .ok (enumerator, ended) u := by
  obtain ⟨ahead, idx⟩ := r
  cases ahead with
  | nil => exact Or.inl ⟨_, none, by simp, Reader.spans_nil.mpr rfl, fun _ => rfl⟩
  | cons token rest =>
      have next : Reader.Spans ⟨token :: rest, idx⟩ [token] ⟨rest, idx + 1⟩ := ⟨rfl, rfl⟩
      by_cases isBetween : IsBetween token
      · exact Or.inr (Or.inl ⟨token, _, isBetween, next⟩)
      rw [bodyFrom_cons] at read
      cases kindIs : token.kind with
      | blockEnd => exact Or.inl ⟨_, some token, by simpa using kindIs, next, nofun⟩
      | element =>
          simp only [kindIs] at read
          obtain ⟨⟨enumerator, ended⟩, u, atConstant, -⟩ := bind_eq_ok_iff.mp read
          exact Or.inr (Or.inr ⟨token, _, u, enumerator, ended, kindIs, next, atConstant⟩)
      | inlineComment => exact absurd (Or.inl (Token.isComment_iff.mpr (.inl kindIs))) isBetween
      | comment => exact absurd (Or.inl (Token.isComment_iff.mpr (.inr kindIs))) isBetween
      | char =>
          have notComma : token.value ≠ "," := fun isComma => isBetween (.inr ⟨kindIs, isComma⟩)
          simp only [kindIs, notComma, if_false] at read
          cases read
      | _ =>
          simp only [kindIs] at read
          cases read

namespace Entry

def before? (entry : Entry) : Option Token :=
  Token.lastOf? .comment entry.before

def inside? (entry : Entry) : Option Token :=
  (entry.details.filterMap Detail.inline?).getLast?

def behind? (entry : Entry) : Option Token :=
  Token.lastOf? .inlineComment entry.behind

def initializer (entry : Entry) : String :=
  ((entry.details.filterMap Detail.given?).getLast?.map Token.value).getD ""

def source? (entry : Entry) : Option Token :=
  entry.behind?.or (entry.before?.or entry.inside?)

theorem kind_of_inside? {entry : Entry} {note : Token} (isNote : entry.inside? = some note) :
    note.kind = .inlineComment := by
  obtain ⟨detail, -, isInline⟩ := List.mem_filterMap.mp (List.mem_of_getLast? isNote)
  exact Detail.kind_of_inline? isInline

def enumerator (entry : Entry) : Enumerator where
  name := entry.name.value
  initializer := entry.initializer
  doc := {
    text := (entry.source?.map Token.value).getD ""
    isInline := entry.behind?.isSome || entry.inside?.isSome }

end Entry

def markLast : List Enumerator → List Enumerator
  | [] => []
  | [enumerator] => [{ enumerator with isLast := true }]
  | enumerator :: next :: later => enumerator :: markLast (next :: later)

theorem markLast_append (front : List Enumerator) {back : List Enumerator} (some : back ≠ []) :
    markLast (front ++ back) = front ++ markLast back := by
  induction front with
  | nil => rfl
  | cons enumerator front ih =>
      obtain ⟨next, later, cut⟩ := List.exists_cons_of_ne_nil
        (List.append_ne_nil_of_right_ne_nil front some)
      rw [List.cons_append, List.cons_append, ← ih, cut, markLast]

theorem foldl_apply (details : List Detail) (enumerator : Enumerator) :
    details.foldl Detail.apply enumerator =
      { enumerator with
        initializer := ((details.filterMap Detail.given?).getLast?.map Token.value).getD
          enumerator.initializer
        doc := ((details.filterMap Detail.inline?).getLast?.map Doc.ofToken).getD
          enumerator.doc } := by
  induction details using List.reverseRecOn with
  | nil => rfl
  | append_singleton details detail ih =>
      rw [List.foldl_append, ih, List.filterMap_append, List.filterMap_append,
        List.getLast?_append, List.getLast?_append]
      cases given : detail.given? <;> cases inline : detail.inline? <;>
        simp [Detail.apply, given, inline]

/-- A constant as it is kept back, and then with the inline comment behind it. -/
theorem Entry.enumerator_eq (entry : Entry) :
    (documented (entry.before?.map Token.value)
      (entry.details.foldl Detail.apply { name := entry.name.value })).noted entry.behind? =
      entry.enumerator := by
  have behindKind : ∀ note ∈ entry.behind?, Doc.ofToken note = ⟨note.value, true⟩ :=
    fun note isNote => by simp [Doc.ofToken, Token.kind_of_lastOf? isNote]
  have insideKind : ∀ note ∈ entry.inside?, Doc.ofToken note = ⟨note.value, true⟩ :=
    fun note isNote => by simp [Doc.ofToken, kind_of_inside? isNote]
  rw [foldl_apply, ← inside?, enumerator, initializer, source?, Enumerator.noted]
  cases behind : entry.behind? with
  | some note => cases entry.before? <;> simp [documented, behindKind note behind]
  | none =>
      cases inside : entry.inside? with
      | some note => cases entry.before? <;> simp [documented, insideKind note inside]
      | none => cases entry.before? <;> simp [documented]

/-- The enumeration behind a layout. The constant `last` was read before it, and the tokens `seen`
stand between the two. -/
def Layout.complete (layout : Layout) (enumeration : Enumeration) (last : Option Enumerator)
    (seen : List Token) : Enumeration :=
  let note := Token.lastOf? .inlineComment layout.lead
  { enumeration.passing last note with
    enumerators := enumeration.enumerators ++ markLast
      ((last.map fun enumerator => enumerator.noted note).toList ++
        (layout.entriesFrom seen).map Entry.enumerator) }

theorem passing_passing (enumeration : Enumeration) (last : Option Enumerator)
    (change : Enumerator → Enumerator) (first second : Option Token) :
    (enumeration.passing last first).passing (last.map change) second =
      enumeration.passing last (second.or first) := by
  cases last <;> cases second <;> rfl

theorem enumerators_passing (enumeration : Enumeration) (last : Option Enumerator)
    (note : Option Token) :
    (enumeration.passing last note).enumerators = enumeration.enumerators := by
  cases last <;> rfl

theorem Layout.complete_stop (enumeration : Enumeration) (last : Option Enumerator)
    (seen : List Token) (brace : Option Token) (isEnd : ∀ token ∈ brace, token.kind = .blockEnd) :
    (stop brace isEnd).complete enumeration last seen = enumeration.close last := by
  cases last <;> rfl

theorem Layout.complete_between (layout : Layout) (enumeration : Enumeration)
    (last : Option Enumerator) (seen : List Token) (token : Token) (isBetween : IsBetween token) :
    (between token isBetween layout).complete enumeration last seen =
      layout.complete (enumeration.passing last (Token.lastOf? .inlineComment [token]))
        (last.map fun enumerator => enumerator.noted (Token.lastOf? .inlineComment [token]))
        (seen ++ [token]) := by
  have note : Token.lastOf? .inlineComment (between token isBetween layout).lead =
      (Token.lastOf? .inlineComment layout.lead).or (Token.lastOf? .inlineComment [token]) :=
    Token.lastOf?_append _ [token] layout.lead
  simp only [complete, note, passing_passing, enumerators_passing, Option.map_map,
    Function.comp_def, Enumerator.noted_noted]
  rfl

/-- The constant as it is kept back behind the tokens `seen` and its details. -/
def keptBack (seen : List Token) (name : Token) (details : List Detail) : Enumerator :=
  documented ((Token.lastOf? .comment seen).map Token.value)
    (details.foldl Detail.apply { name := name.value })

theorem Layout.complete_more (layout : Layout) (enumeration : Enumeration)
    (last : Option Enumerator) (seen : List Token) (name : Token) (details : List Detail)
    (comma : Token) (isName : name.kind = .element) (isComma : IsComma comma) :
    (more name details comma layout isName isComma).complete enumeration last seen =
      layout.complete (enumeration.add last) (some (keptBack seen name details)) [] := by
  have kept : (keptBack seen name details).noted (Token.lastOf? .inlineComment layout.lead) =
      Entry.enumerator ⟨name, details, seen, layout.lead⟩ :=
    Entry.enumerator_eq ⟨name, details, seen, layout.lead⟩
  have listed : (more name details comma layout isName isComma).complete enumeration last seen =
      { enumeration with enumerators := enumeration.enumerators ++ markLast (last.toList ++
        (Entry.enumerator ⟨name, details, seen, layout.lead⟩ ::
          (layout.entriesFrom []).map Entry.enumerator)) } := by
    cases last <;> rfl
  rw [listed, markLast_append _ (List.cons_ne_nil _ _), ← List.append_assoc, ← kept]
  rfl

theorem Layout.complete_last (enumeration : Enumeration) (last : Option Enumerator)
    (seen : List Token) (name : Token) (details : List Detail) (brace : Option Token)
    (isName : name.kind = .element) (isEnd : ∀ token ∈ brace, token.kind = .blockEnd) :
    (Layout.last name details brace isName isEnd).complete enumeration last seen =
      (enumeration.add last).close (some (keptBack seen name details)) := by
  have kept : keptBack seen name details = Entry.enumerator ⟨name, details, seen, []⟩ :=
    Entry.enumerator_eq ⟨name, details, seen, []⟩
  have listed : (Layout.last name details brace isName isEnd).complete enumeration last seen =
      { enumeration with enumerators := enumeration.enumerators ++ markLast (last.toList ++
        [Entry.enumerator ⟨name, details, seen, []⟩]) } := by
    cases last <;> rfl
  rw [listed, markLast_append _ (List.cons_ne_nil _ _), ← List.append_assoc, ← kept]
  rfl

namespace Layout

variable {r s : Reader} {name : Token} {details : List Detail} {layout : Layout}

theorem fits_between {token : Token} {isBetween : IsBetween token} :
    (between token isBetween layout).Fits r s ↔ ∃ t, r.Spans [token] t ∧ layout.Fits t s := by
  have parts := @Reader.spans_append r s [token] layout.tokens
  constructor
  · rintro ⟨spans, ends⟩
    obtain ⟨t, atToken, others⟩ := parts.mp spans
    exact ⟨t, atToken, others, ends⟩
  · rintro ⟨t, atToken, others, ends⟩
    exact ⟨parts.mpr ⟨t, atToken, others⟩, ends⟩

theorem fits_last {brace : Option Token} {isName : name.kind = .element}
    {isEnd : ∀ token ∈ brace, token.kind = .blockEnd} :
    (last name details brace isName isEnd).Fits r s ↔ ∃ t v,
      r.Spans [name] t ∧ t.Spans (details.flatMap Detail.tokens) v ∧ v.Spans brace.toList s ∧
        (brace = none → s.rest = []) := by
  have parts := @Reader.spans_append r s [name] (details.flatMap Detail.tokens ++ brace.toList)
  constructor
  · rintro ⟨spans, ends⟩
    obtain ⟨t, atName, others⟩ := parts.mp spans
    obtain ⟨v, inside, atStop⟩ := Reader.spans_append.mp others
    exact ⟨t, v, atName, inside, atStop, ends⟩
  · rintro ⟨t, v, atName, inside, atStop, ends⟩
    exact ⟨parts.mpr ⟨t, atName, Reader.spans_append.mpr ⟨v, inside, atStop⟩⟩, ends⟩

theorem fits_more {comma : Token} {isName : name.kind = .element} {isComma : IsComma comma} :
    (more name details comma layout isName isComma).Fits r s ↔ ∃ t v u,
      r.Spans [name] t ∧ t.Spans (details.flatMap Detail.tokens) v ∧ v.Spans [comma] u ∧
        layout.Fits u s := by
  have parts := @Reader.spans_append r s [name]
    (details.flatMap Detail.tokens ++ ([comma] ++ layout.tokens))
  constructor
  · rintro ⟨spans, ends⟩
    obtain ⟨t, atName, others⟩ := parts.mp spans
    obtain ⟨v, inside, others⟩ := Reader.spans_append.mp others
    obtain ⟨u, atComma, others⟩ := Reader.spans_append.mp others
    exact ⟨t, v, u, atName, inside, atComma, others, ends⟩
  · rintro ⟨t, v, u, atName, inside, atComma, others, ends⟩
    have behind := Reader.spans_append.mpr ⟨u, atComma, others⟩
    exact ⟨parts.mpr ⟨t, atName, Reader.spans_append.mpr ⟨v, inside, behind⟩⟩, ends⟩

end Layout

/-- Tokens with a layout are read as the layout says. -/
theorem bodyFrom_layout (layout : Layout) : ∀ {n : Nat} (enumeration : Enumeration)
    (last : Option Enumerator) (seen : List Token) {r s : Reader}, r.rest.length < n →
    layout.Fits r s → bodyFrom n enumeration (Token.lastOf? .comment seen) last r =
      .ok (layout.complete enumeration last seen) s := by
  induction layout with
  | stop brace isEnd =>
      intro n enumeration last seen r s enough fits
      obtain ⟨n, rfl⟩ : ∃ k, n = k + 1 := ⟨n - 1, by omega⟩
      rw [Layout.complete_stop]
      exact bodyFrom_stop n _ _ _ ⟨brace, isEnd, fits⟩
  | between token isBetween layout ih =>
      intro n enumeration last seen r s enough fits
      obtain ⟨n, rfl⟩ : ∃ k, n = k + 1 := ⟨n - 1, by omega⟩
      obtain ⟨t, spans, others⟩ := Layout.fits_between.mp fits
      have shorter := spans.length_lt (List.cons_ne_nil _ _)
      rw [bodyFrom_between n _ _ _ isBetween spans, ← Token.lastOf?_append,
        ih _ _ _ (by omega) others, Layout.complete_between]
  | last name details brace isName isEnd =>
      intro n enumeration last seen r s enough fits
      obtain ⟨n, rfl⟩ : ∃ k, n = k + 1 := ⟨n - 1, by omega⟩
      obtain ⟨t, v, atName, inside, atStop, noBrace⟩ := Layout.fits_last.mp fits
      rw [Layout.complete_last]
      cases brace with
      | some stop =>
          have ends : EndsConstant true v s := Or.inl ⟨stop, isEnd stop rfl, atStop⟩
          exact bodyFrom_constant n _ _ _ isName atName
            (enumerator_eq_ok_iff.mpr ⟨details, v, inside, rfl, ends⟩)
      | none =>
          -- Another round ends the body behind the constant.
          obtain rfl := Reader.spans_nil.mp atStop
          have shorter := atName.length_lt (List.cons_ne_nil _ _)
          obtain ⟨n, rfl⟩ : ∃ k, n = k + 1 := ⟨n - 1, by omega⟩
          have ends : EndsConstant false v v := Or.inr ⟨rfl, noBrace rfl, rfl⟩
          refine (bodyFrom_constant (n + 1) _ _ _ isName atName
            (enumerator_eq_ok_iff.mpr ⟨details, v, inside, rfl, ends⟩)).trans ?_
          exact bodyFrom_stop n _ _ _ ⟨none, by simp, atStop, noBrace⟩
  | more name details comma layout isName isComma ih =>
      intro n enumeration last seen r s enough fits
      obtain ⟨n, rfl⟩ : ∃ k, n = k + 1 := ⟨n - 1, by omega⟩
      obtain ⟨t, v, u, atName, inside, atComma, others⟩ := Layout.fits_more.mp fits
      have shorter := atName.length_lt (List.cons_ne_nil _ _)
      have fewer := inside.length_le
      have fewest := atComma.length_le
      have ends : EndsConstant false v u := Or.inl ⟨comma, isComma, atComma⟩
      rw [Layout.complete_more]
      refine (bodyFrom_constant n _ _ _ isName atName
        (enumerator_eq_ok_iff.mpr ⟨details, v, inside, rfl, ends⟩)).trans ?_
      exact ih _ _ [] (by omega) others

/-- What is read of a body has a layout. -/
theorem exists_fits (n : Nat) : ∀ {enumeration found : Enumeration} {pending : Option Token}
    {last : Option Enumerator} {r s : Reader}, r.rest.length < n →
    bodyFrom n enumeration pending last r = .ok found s → ∃ layout : Layout, layout.Fits r s := by
  induction n with
  | zero => intro enumeration found pending last r s enough; omega
  | succ n ih =>
      intro enumeration found pending last r s enough read
      rcases bodyFrom_cases read with ⟨t, ends⟩ | ⟨token, t, isBetween, spans⟩ |
        ⟨name, t, u, enumerator, ended, isName, atName, atConstant⟩
      · cases (bodyFrom_stop n enumeration pending last ends).symm.trans read
        obtain ⟨brace, isEnd, fits⟩ := ends
        exact ⟨.stop brace isEnd, fits⟩
      · have shorter := spans.length_lt (List.cons_ne_nil _ _)
        rw [bodyFrom_between n _ _ _ isBetween spans] at read
        obtain ⟨layout, fits⟩ := ih (by omega) read
        exact ⟨.between token isBetween layout, Layout.fits_between.mpr ⟨t, spans, fits⟩⟩
      · rw [bodyFrom_constant n _ _ _ isName atName atConstant] at read
        obtain ⟨details, v, inside, -, ends⟩ := enumerator_eq_ok_iff.mp atConstant
        have shorter := atName.length_lt (List.cons_ne_nil _ _)
        have fewer := inside.length_le
        rcases ends with ⟨stop, isEnd, atStop⟩ | ⟨rfl, atEnd, rfl⟩
        · cases ended with
          | true =>
              cases read
              have isBrace : stop.kind = .blockEnd := isEnd
              refine ⟨.last name details (some stop) isName (by simpa using isBrace), ?_⟩
              exact Layout.fits_last.mpr ⟨t, v, atName, inside, atStop, nofun⟩
          | false =>
              have fewest := atStop.length_le
              obtain ⟨layout, fits⟩ := ih (by omega) read
              refine ⟨.more name details stop layout isName isEnd, ?_⟩
              exact Layout.fits_more.mpr ⟨t, v, u, atName, inside, atStop, fits⟩
        · obtain ⟨n, rfl⟩ : ∃ k, n = k + 1 := ⟨n - 1, by omega⟩
          have here : v.Spans (none : Option Token).toList v := Reader.spans_nil.mpr rfl
          have ends : EndsBody v v := ⟨none, by simp, here, fun _ => atEnd⟩
          cases (bodyFrom_stop n _ _ _ ends).symm.trans read
          refine ⟨.last name details none isName (by simp), ?_⟩
          exact Layout.fits_last.mpr ⟨t, _, atName, inside, here, fun _ => atEnd⟩

/-- A body is read exactly if it has a layout, and its enumeration is that of the layout. -/
theorem bodyFrom_eq_ok_iff {n : Nat} {enumeration : Enumeration} {last : Option Enumerator}
    {seen : List Token} {r : Reader} (enough : r.rest.length < n) {found : Enumeration}
    {s : Reader} :
    bodyFrom n enumeration (Token.lastOf? .comment seen) last r = .ok found s ↔
      ∃ layout : Layout, layout.Fits r s ∧ found = layout.complete enumeration last seen := by
  constructor
  · intro read
    obtain ⟨layout, fits⟩ := exists_fits n enough read
    have complete := bodyFrom_layout layout enumeration last seen enough fits
    cases complete.symm.trans read
    exact ⟨layout, fits, rfl⟩
  · rintro ⟨layout, fits, rfl⟩
    exact bodyFrom_layout layout enumeration last seen enough fits

/-- A layout of a whole enumeration behind its keyword, with the tokens of its name and its opening
brace. -/
def Layout.Describes (layout : Layout) (name : Token) (r s : Reader) : Prop :=
  ∃ (start : Token) (t : Reader), r.FindsAll [name, start] t ∧ name.kind = .element ∧
    start.kind = .blockStart ∧ layout.Fits t s

theorem read_eq_ok_iff {r s : Reader} {found : Enumeration} :
    read r = .ok found s ↔ ∃ (layout : Layout) (name : Token), layout.Describes name r s ∧
      found = layout.complete { name := name.value } none [] := by
  rw [read, bind_eq_ok_iff]
  constructor
  · rintro ⟨name, t, atName, later⟩
    obtain ⟨start, u, atStart, inBody⟩ := bind_eq_ok_iff.mp later
    obtain ⟨findsName, isName⟩ := expect_one_eq_ok_iff.mp atName
    obtain ⟨findsStart, isStart⟩ := expect_one_eq_ok_iff.mp atStart
    obtain ⟨layout, fits, same⟩ :=
      (@bodyFrom_eq_ok_iff _ _ none [] u (Nat.lt_succ_self _) found s).mp inBody
    exact ⟨layout, name, ⟨start, u, ⟨t, findsName, u, findsStart, rfl⟩, isName, isStart, fits⟩,
      same⟩
  · rintro ⟨layout, name, ⟨start, _, ⟨t, findsName, u, findsStart, rfl⟩, isName, isStart, fits⟩,
      same⟩
    refine ⟨name, t, expect_one_eq_ok_iff.mpr ⟨findsName, isName⟩, ?_⟩
    refine bind_eq_ok_iff.mpr ⟨start, u, expect_one_eq_ok_iff.mpr ⟨findsStart, isStart⟩, ?_⟩
    exact (@bodyFrom_eq_ok_iff _ _ none [] u (Nat.lt_succ_self _) found s).mpr ⟨layout, fits, same⟩

end Enumeration

end QmlDoc
