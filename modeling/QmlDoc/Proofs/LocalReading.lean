import QmlDoc.Proofs.EnumerationLayout
import QmlDoc.Proofs.NestedObjects

set_option autoImplicit false

namespace QmlDoc

open Token (codeOf)

/-- Of two lists of tokens the same can be seen by looking ahead: the next token other than a
comment, and whether there is a token at all. -/
def SameNext (rest other : List Token) : Prop :=
  (codeOf rest).head? = (codeOf other).head? ∧ (rest = [] ↔ other = [])

namespace SameNext

variable {rest other : List Token}

theorem refl (rest : List Token) : SameNext rest rest :=
  ⟨rfl, Iff.rfl⟩

theorem append (same : SameNext rest other) (front : List Token) :
    SameNext (front ++ rest) (front ++ other) := by
  refine ⟨?_, ?_⟩
  · rw [Token.codeOf_append, Token.codeOf_append, List.head?_append, List.head?_append, same.1]
  · rw [List.append_eq_nil_iff, List.append_eq_nil_iff, same.2]

theorem of_code {front : List Token} (hasCode : codeOf front ≠ []) (rest other : List Token) :
    SameNext (front ++ rest) (front ++ other) := by
  obtain ⟨token, later, isFirst⟩ := List.exists_cons_of_ne_nil hasCode
  have some : front ≠ [] := by
    rintro rfl
    exact hasCode rfl
  refine ⟨?_, by simp [some]⟩
  rw [Token.codeOf_append, Token.codeOf_append, isFirst]
  rfl

end SameNext

namespace Reader

/-- The step leads over the tokens between `r` and `s`, and over the same tokens at any place before
any tokens that look alike. -/
def Repeated (step : Reader → Reader → Prop) (r s : Reader) : Prop :=
  ∃ tokens, r.Spans tokens s ∧ ∀ rest idx, SameNext s.rest rest →
    step ⟨tokens ++ rest, idx⟩ ⟨rest, idx + tokens.length⟩

theorem Repeated.here {step : Reader → Reader → Prop} (holds : ∀ r, step r r) (r : Reader) :
    r.Repeated step r :=
  ⟨[], spans_nil.mpr rfl, fun rest idx _ => holds ⟨rest, idx⟩⟩

theorem Repeated.imp {step other : Reader → Reader → Prop} {r s : Reader}
    (repeated : r.Repeated step s) (implies : ∀ a b, step a b → other a b) :
    r.Repeated other s := by
  obtain ⟨tokens, spans, again⟩ := repeated
  exact ⟨tokens, spans, fun rest idx same => implies _ _ (again rest idx same)⟩

theorem Repeated.trans {first second : Reader → Reader → Prop} {r s t : Reader}
    (repeated : r.Repeated first s) (later : s.Repeated second t) :
    r.Repeated (fun a c => ∃ b, first a b ∧ second b c) t := by
  obtain ⟨front, spans, again⟩ := repeated
  obtain ⟨back, onward, againBehind⟩ := later
  refine ⟨front ++ back, spans_append.mpr ⟨s, spans, onward⟩, fun rest idx same => ?_⟩
  have alike : SameNext s.rest (back ++ rest) := by
    rw [onward.1]
    exact same.append back
  rw [List.append_assoc, List.length_append, ← Nat.add_assoc]
  exact ⟨_, again _ idx alike, againBehind rest _ same⟩

end Reader

namespace Reading

/-- What `reading` reads, `again` reads with the same result before any tokens that look alike. A
bound on its rounds has to exceed the number of tokens that are read. -/
def Repeats {α : Type} (reading : Reading α) (again : Nat → Reading α) : Prop :=
  ∀ r value s, reading r = .ok value s → ∃ tokens, r.Spans tokens s ∧
    ∀ n rest idx, tokens.length < n → SameNext s.rest rest →
      again n ⟨tokens ++ rest, idx⟩ = .ok value ⟨rest, idx + tokens.length⟩

/-- Reading that depends on the tokens that it reads and on nothing else but what can be seen by
looking ahead. -/
def Local {α : Type} (reading : Reading α) : Prop :=
  Repeats reading fun _ => reading

variable {α β : Type}

theorem local_iff {reading : Reading α} :
    Local reading ↔ ∀ r value s, reading r = .ok value s →
      r.Repeated (fun a b => reading a = .ok value b) s := by
  constructor
  · intro isLocal r value s read
    obtain ⟨tokens, spans, again⟩ := isLocal r value s read
    exact ⟨tokens, spans, fun rest idx => again (tokens.length + 1) rest idx (Nat.lt_succ_self _)⟩
  · intro repeats r value s read
    obtain ⟨tokens, spans, again⟩ := repeats r value s read
    exact ⟨tokens, spans, fun n rest idx _ => again rest idx⟩

theorem Local.again {reading : Reading α} (isLocal : Local reading) {r s : Reader} {value : α}
    (read : reading r = .ok value s) : r.Repeated (fun a b => reading a = .ok value b) s :=
  local_iff.mp isLocal r value s read

theorem Repeats.congr {reading : Reading α} {again other : Nat → Reading α}
    (repeats : Repeats reading again) (same : ∀ n, 0 < n → again n = other n) :
    Repeats reading other := by
  intro r value s read
  obtain ⟨tokens, spans, there⟩ := repeats r value s read
  refine ⟨tokens, spans, ?_⟩
  intro n rest idx enough next
  rw [← same n (by omega)]
  exact there n rest idx enough next

theorem repeats_pure (value : α) : Repeats (pure value) fun _ => pure value := by
  intro r found s read
  obtain ⟨rfl, rfl⟩ := pure_eq_ok_iff.mp read
  exact ⟨[], Reader.spans_nil.mpr rfl, fun _ _ _ _ _ => rfl⟩

theorem repeats_fail (error : ReadError) (again : Nat → Reading α) :
    Repeats (fail error) again := by
  intro r value s read
  cases read

theorem repeats_ite {condition : Prop} [Decidable condition] {first second : Reading α}
    {first' second' : Nat → Reading α} (isTrue : Repeats first first')
    (isFalse : Repeats second second') :
    Repeats (if condition then first else second)
      fun n => if condition then first' n else second' n := by
  by_cases holds : condition
  · simp only [if_pos holds]
    exact isTrue
  · simp only [if_neg holds]
    exact isFalse

/-- One reader after the other. If the first one reads `k` tokens or more, the bound for the second
one may be less by `k`. -/
theorem Repeats.bindPast {first : Reading α} {again : Nat → Reading α} {next : α → Reading β}
    {next' : Nat → α → Reading β} (repeats : Repeats first again) (k : Nat)
    (reads : ∀ r value s, first r = .ok value s → s.rest.length + k ≤ r.rest.length)
    (later : ∀ value, Repeats (next value) fun n => next' n value) :
    Repeats (first >>= next) fun n => again n >>= next' (n - k) := by
  intro r value s read
  obtain ⟨found, t, readFirst, readNext⟩ := bind_eq_ok_iff.mp read
  obtain ⟨front, spans, firstAgain⟩ := repeats r found t readFirst
  obtain ⟨back, onward, nextAgain⟩ := later found t value s readNext
  have past := reads r found t readFirst
  rw [spans.1, List.length_append] at past
  refine ⟨front ++ back, Reader.spans_append.mpr ⟨t, spans, onward⟩, ?_⟩
  intro n rest idx enough same
  rw [List.length_append] at enough ⊢
  have alike : SameNext t.rest (back ++ rest) := by
    rw [onward.1]
    exact same.append back
  have firstRead := firstAgain n (back ++ rest) idx (by omega) alike
  have nextRead := nextAgain (n - k) rest (idx + front.length) (by omega) same
  rw [Nat.add_assoc] at nextRead
  rw [List.append_assoc]
  exact (bind_of_ok firstRead _).trans nextRead

theorem Repeats.bind {first : Reading α} {again : Nat → Reading α} {next : α → Reading β}
    {next' : Nat → α → Reading β} (repeats : Repeats first again)
    (later : ∀ value, Repeats (next value) fun n => next' n value) :
    Repeats (first >>= next) fun n => again n >>= next' n := by
  refine repeats.bindPast 0 ?_ later
  intro r value s read
  obtain ⟨tokens, spans, -⟩ := repeats r value s read
  exact spans.length_le

theorem Local.bind {first : Reading α} {next : α → Reading β} (isLocal : Local first)
    (later : ∀ value, Local (next value)) : Local (first >>= next) :=
  Repeats.bind isLocal later

/-- A loop that is given the number of tokens ahead as the bound on its rounds. -/
theorem local_get (loop : Nat → Reading α) (repeats : ∀ n, Repeats (loop n) loop) :
    Local (get >>= fun r : Reader => loop (r.rest.length + 1)) := by
  intro r value s read
  obtain ⟨tokens, spans, again⟩ := repeats _ r value s read
  refine ⟨tokens, spans, ?_⟩
  intro n rest idx _ same
  refine again _ rest idx ?_ same
  rw [List.length_append]
  omega

theorem any_eq_ok_iff {r s : Reader} {token : Token} : any r = .ok token s ↔ r.Spans [token] s := by
  obtain ⟨ahead, place⟩ := r
  obtain ⟨later, next⟩ := s
  cases ahead with
  | nil => simp [any, run, Reader.Spans]
  | cons first ahead => simp [any, run, Reader.Spans, eq_comm, and_assoc]

theorem local_any : Local any := by
  rw [local_iff]
  intro r token s read
  refine ⟨[token], any_eq_ok_iff.mp read, fun rest idx _ => ?_⟩
  exact any_eq_ok_iff.mpr ⟨rfl, rfl⟩

theorem local_code : Local code := by
  rw [local_iff]
  intro r token s read
  obtain ⟨isCode, comments, areComments, spans⟩ :=
    Reader.finds_iff_spans.mp (code_eq_ok_iff.mp read)
  refine ⟨comments ++ [token], spans, ?_⟩
  intro rest idx _
  exact code_eq_ok_iff.mpr (Reader.finds_iff_spans.mpr
    ⟨isCode, comments, areComments, rfl, rfl⟩)

theorem local_expect (expected : Expected) : Local (expect expected) := by
  apply local_code.bind
  intro token
  exact repeats_ite (repeats_pure token) (repeats_fail _ _)

theorem local_expectValue (expected : Expected) (value : String) :
    Local (expectValue expected value) := by
  apply (local_expect expected).bind
  intro token
  exact repeats_ite (repeats_pure token) (repeats_fail _ _)

theorem finds_of_head? {tokens : List Token} {token : Token}
    (isNext : (codeOf tokens).head? = some token) (idx : Nat) :
    ∃ s, Reader.Finds ⟨tokens, idx⟩ token s := by
  obtain ⟨later, order⟩ := List.head?_eq_some_iff.mp isNext
  obtain ⟨comments, rest, rfl, areComments, isCode, -⟩ := List.filter_eq_cons_iff.mp order
  refine ⟨⟨rest, idx + comments.length + 1⟩, comments, rfl, ?_, by simpa using isCode, rfl⟩
  intro comment member
  simpa using areComments comment member

/-- A look at the next token. It is left unread with the comments before it unless it is one that
`opens` accepts. -/
theorem local_ahead {opens : Token → Bool} {next : Reading α} (isLocal : Local next) (value : α) :
    Local (get >>= fun behind : Reader => code >>= fun token =>
      if opens token then next else set behind >>= fun _ => pure value) := by
  rw [local_iff]
  intro r found s read
  obtain ⟨token, t, readToken, later⟩ := bind_eq_ok_iff.mp ((get_bind _ r).symm.trans read)
  by_cases isStart : opens token = true
  · rw [if_pos isStart] at later
    refine ((local_code.again readToken).trans (isLocal.again later)).imp ?_
    rintro a c ⟨b, readAgain, laterAgain⟩
    rw [get_bind, bind_of_ok readAgain, if_pos isStart]
    exact laterAgain
  · rw [if_neg isStart] at later
    obtain ⟨rfl, rfl⟩ := pure_eq_ok_iff.mp later
    refine ⟨[], Reader.spans_nil.mpr rfl, ?_⟩
    intro rest idx same
    have isNext : (codeOf rest).head? = some token := by
      rw [← same.1, (code_eq_ok_iff.mp readToken).codeOf_eq, List.head?_cons]
    obtain ⟨u, finds⟩ := finds_of_head? isNext idx
    rw [List.nil_append, get_bind, bind_of_ok (code_eq_ok_iff.mpr finds), if_neg isStart]
    rfl

/-- The rule for a loop whose rounds read something first. -/
theorem repeats_round {first : Reading α} {next : α → Reading β} {next' : Nat → α → Reading β}
    {loop : Nat → Reading β} (isLocal : Local first)
    (reads : ∀ r value s, first r = .ok value s → s.rest.length < r.rest.length)
    (unfolds : ∀ n, loop (n + 1) = first >>= next' n)
    (later : ∀ value, Repeats (next value) fun n => next' n value) :
    Repeats (first >>= next) loop := by
  refine (Repeats.bindPast isLocal 1 reads later).congr fun n positive => ?_
  rw [← unfolds, Nat.sub_add_cancel positive]

theorem expect_length_lt {expected : Expected} (r : Reader) (token : Token) (s : Reader)
    (read : expect expected r = .ok token s) : s.rest.length < r.rest.length :=
  (expect_eq_ok_iff.mp read).1.passes.length_lt

/-- Where the rest of a block ends depends on the tokens up to its end only. -/
theorem blockRest_again (tokens : List Token) : ∀ {depth place : Nat} {s : Reader},
    blockRest depth place tokens = .ok () s → ∃ read, Reader.Spans ⟨tokens, place⟩ read s ∧
      ∀ rest idx, blockRest depth idx (read ++ rest) = .ok () ⟨rest, idx + read.length⟩ := by
  induction tokens with
  | nil => intro depth place s read; cases read
  | cons token tokens ih =>
      intro depth place s read
      -- Another token is read before those that the rounds behind it read.
      have goOn {inner : Nat} (later : blockRest inner (place + 1) tokens = .ok () s)
          (round : ∀ rest idx,
            blockRest depth idx (token :: rest) = blockRest inner (idx + 1) rest) :
          ∃ read, Reader.Spans ⟨token :: tokens, place⟩ read s ∧
            ∀ rest idx, blockRest depth idx (read ++ rest) = .ok () ⟨rest, idx + read.length⟩ := by
        obtain ⟨read, spans, again⟩ := ih later
        refine ⟨token :: read, Reader.spans_cons.mpr ⟨tokens, rfl, spans⟩, fun rest idx => ?_⟩
        rw [List.cons_append, round, again, List.length_cons, Nat.add_assoc, Nat.add_comm 1]
      rw [blockRest_cons] at read
      cases kindIs : token.kind <;> simp only [kindIs] at read
      case blockEnd =>
        cases depth with
        | zero =>
            cases read
            refine ⟨[token], ⟨rfl, rfl⟩, fun rest idx => ?_⟩
            rw [List.singleton_append, blockRest_cons]
            simp only [kindIs]
            rfl
        | succ outer => exact goOn read fun rest idx => by rw [blockRest_cons]; simp only [kindIs]
      all_goals exact goOn read fun rest idx => by rw [blockRest_cons]; simp only [kindIs]

theorem local_skipBlock : Local skipBlock := by
  rw [local_iff]
  intro r value s read
  obtain ⟨tokens, spans, again⟩ := blockRest_again r.rest read
  exact ⟨tokens, spans, fun rest idx _ => again rest idx⟩

end Reading

namespace Argument

open Reading

theorem repeats_defaultValueFrom (bound : Nat) : ∀ value : String,
    Repeats (defaultValueFrom bound value) fun n => defaultValueFrom n value := by
  induction bound with
  | zero => intro value; exact repeats_fail _ _
  | succ bound ih =>
      intro value
      refine repeats_round (local_expect _) expect_length_lt (fun n => rfl) fun token => ?_
      apply repeats_ite
      · exact repeats_pure _
      apply repeats_ite
      · exact Repeats.bind (local_expect _) fun _ => ih _
      apply repeats_ite
      · exact Repeats.bind (local_expect _) fun _ => ih _
      exact ih _

theorem local_behindValue (valued : Argument) (stop : Token) : Local (behindValue valued stop) := by
  refine repeats_ite ?_ (repeats_pure _)
  apply (local_expect _).bind
  intro type
  apply (local_expect _).bind
  intro stop
  exact repeats_pure _

theorem local_behindName (named : Argument) : Local (behindName named) := by
  apply (local_expect _).bind
  intro mark
  refine repeats_ite ?_ (local_behindValue named mark)
  refine local_get (fun n => defaultValueFrom n "" >>= fun found =>
    behindValue { named with defaultValue := some found.1 } found.2) fun bound => ?_
  exact (repeats_defaultValueFrom bound "").bind fun found => local_behindValue _ _

theorem local_readFrom (typed isSpread : Bool) (first : Token) :
    Local (readFrom typed isSpread first) := by
  rw [readFrom_eq]
  refine repeats_ite ?_ (local_behindName _)
  exact (local_expect _).bind fun name => local_behindName _

theorem repeats_listFrom (typed : Bool) (bound : Nat) : ∀ (isSpread : Bool) (first : Token),
    Repeats (listFrom typed bound isSpread first) fun n => listFrom typed n isSpread first := by
  induction bound with
  | zero => intro isSpread first; exact repeats_fail _ _
  | succ bound ih =>
      intro isSpread first
      refine repeats_round (local_readFrom typed isSpread first) ?_ (fun n => rfl) ?_
      · intro r found s read
        exact ((readFrom_meets typed isSpread first r).of_ok read).2.1.length_lt
      rintro ⟨arg, stop⟩
      apply repeats_ite
      · exact repeats_pure _
      apply repeats_ite
      · exact repeats_fail _ _
      apply Repeats.bind (local_expect _)
      intro next
      have goOn (spread : Bool) (name : Token) := (ih spread name).bind
        fun later => repeats_pure (arg :: later)
      exact repeats_ite (Repeats.bind (local_expect _) fun name => goOn true name)
        (goOn false next)

theorem local_readList (typed : Bool) : Local (readList typed) := by
  apply local_code.bind
  intro first
  refine local_get (fun n =>
    if first.kind = .char && first.value = ")" then pure []
    else if first.kind = .ellipses then
      expect (.one .element) >>= fun name => listFrom typed n true name
    else if first.kind = .element then listFrom typed n false first
    else .fail (.unexpected first)) fun bound => ?_
  apply repeats_ite
  · exact repeats_pure _
  apply repeats_ite
  · exact Repeats.bind (local_expect _) fun name => repeats_listFrom typed bound true name
  exact repeats_ite (repeats_listFrom typed bound false first) (repeats_fail _ _)

end Argument

open Reading

theorem Property.local_read (keyword : String) : Local (Property.read keyword) := by
  apply (local_expect _).bind
  intro type
  apply (local_expect _).bind
  intro name
  exact repeats_pure _

theorem Function.local_read : Local Function.read := by
  apply (local_expect _).bind
  intro name
  apply (local_expectValue _ _).bind
  intro start
  apply (Argument.local_readList false).bind
  intro args
  exact repeats_pure _

theorem Signal.local_read : Local Signal.read := by
  apply (local_expect _).bind
  intro name
  apply local_ahead
  exact (Argument.local_readList true).bind fun args => repeats_pure _

theorem Enumeration.local_read : Local Enumeration.read := by
  apply (local_expect _).bind
  intro name
  apply (local_expect _).bind
  intro start r found s read
  obtain ⟨layout, ⟨spans, ends⟩, same⟩ :=
    (@bodyFrom_eq_ok_iff _ _ none [] r (Nat.lt_succ_self _) found s).mp read
  refine ⟨layout.tokens, spans, ?_⟩
  intro _ rest idx _ alike
  refine (@bodyFrom_eq_ok_iff _ _ none [] _ (Nat.lt_succ_self _) found _).mpr ⟨layout, ?_, same⟩
  exact ⟨⟨rfl, rfl⟩, fun noBrace => alike.2.mp (ends noBrace)⟩

namespace Element

theorem local_readMember (keyword : Token) (note : Option Token) :
    Local (readMember keyword note) := by
  apply repeats_ite
  · exact (Property.local_read _).bind fun p => repeats_pure _
  apply repeats_ite
  · exact Function.local_read.bind fun f => repeats_pure _
  apply repeats_ite
  · exact Signal.local_read.bind fun s => repeats_pure _
  exact repeats_ite (Enumeration.local_read.bind fun e => repeats_pure _) (repeats_fail _ _)

theorem local_readAttribute (name : Token) (note : Option Token) :
    Local (readAttribute name note) := by
  apply (local_expect _).bind
  intro colon
  apply local_any.bind
  intro first
  exact repeats_ite (local_skipBlock.bind fun _ => repeats_pure _) (repeats_pure _)

theorem local_openBlock : Local openBlock :=
  local_code.bind fun _ => repeats_ite (repeats_pure _) (repeats_fail _ _)

theorem local_readInlineInfo (name : Token) (note : Option Token) :
    Local (readInlineInfo name note) := by
  apply (local_expect _).bind
  intro colon
  apply (local_expect _).bind
  intro base
  exact local_openBlock.bind fun _ => repeats_pure _

theorem readBody_eq_iff {nested : Bool} {r s : Reader} {inner : List Element} :
    readBody nested r = ⟨inner, none, s⟩ ↔
      ∃ t, openBlock r = .ok () t ∧ readMembers nested none t = ⟨inner, none, s⟩ := by
  constructor
  · intro read
    cases opened : openBlock r with
    | error error t =>
        rw [readBody, opened] at read
        cases read
    | ok _ t => exact ⟨t, rfl, (readBody_of_open opened nested).symm.trans read⟩
  · rintro ⟨t, opened, read⟩
    exact (readBody_of_open opened nested).trans read

/-- What is read of a body from `r` on is read from the same tokens wherever they stand. -/
def BodyRepeats (r : Reader) : Prop :=
  ∀ nested pending elements s, readMembers nested pending r = ⟨elements, none, s⟩ →
    r.Repeated (fun a b => readMembers nested pending a = ⟨elements, none, b⟩) s

theorem Does.again {nested : Bool} {pending : Option Token} {token : Token} {r s : Reader}
    {use : Use} (bodies : ∀ t : Reader, t.rest.length ≤ r.rest.length → BodyRepeats t)
    (does : Does nested pending token r use s) :
    r.Repeated (fun a b => Does nested pending token a use b) s := by
  cases does with
  | comment isComment => exact .here (fun _ => .comment isComment) _
  | declaration kindIs read =>
      exact ((local_readMember token pending).again read).imp fun _ _ => .declaration kindIs
  | attr kindIs read =>
      exact ((local_readAttribute token pending).again read).imp fun _ _ => .attr kindIs
  | object kindIs isNested read =>
      obtain ⟨t, opened, body⟩ := readBody_eq_iff.mp read
      have toBody := local_openBlock.again opened
      have bound := ((openBlock_meets r).of_ok opened).1.length_le
      refine (toBody.trans (bodies t bound _ _ _ _ body)).imp fun a c again => ?_
      exact .object kindIs isNested (readBody_eq_iff.mpr again)
  | @inlineType info inner t s kindIs read body =>
      have toBody := (local_readInlineInfo token pending).again read
      have bound := ((readInlineInfo_meets token pending r).of_ok read).1.length_le
      refine (toBody.trans (bodies t bound _ _ _ _ body)).imp ?_
      rintro a c ⟨b, readAgain, bodyAgain⟩
      exact .inlineType kindIs readAgain bodyAgain
  | block kindIs skipped =>
      exact (Reading.local_skipBlock.again skipped).imp fun _ _ => .block kindIs
  | idle isIdle => exact .here (fun _ => .idle isIdle) _

/-- A round is the same wherever its tokens stand, its place aside. -/
theorem Takes.again {nested : Bool} {pending : Option Token} {r s : Reader} {round : Round}
    (bodies : ∀ t : Reader, t.rest.length < r.rest.length → BodyRepeats t)
    (takes : Takes nested pending r round s) :
    r.Repeated (fun a b => Takes nested pending a { round with place := a.idx } b) s := by
  obtain ⟨order, place, onward, does⟩ := takes
  have shorter (t : Reader) (bound : t.rest.length ≤ (round.behind ++ s.rest).length) :
      BodyRepeats t := by
    refine bodies t ?_
    rw [order, List.length_cons]
    omega
  obtain ⟨tokens, spans, again⟩ := does.again shorter
  obtain rfl : round.behind = tokens := List.append_cancel_right spans.1
  refine ⟨round.token :: round.behind, ⟨order, ?_⟩, fun rest idx same => ?_⟩
  · rw [onward, List.length_cons]
    omega
  · have place : idx + (round.token :: round.behind).length = idx + 1 + round.behind.length := by
      rw [List.length_cons]
      omega
    rw [place]
    exact ⟨rfl, rfl, rfl, again rest (idx + 1) same⟩

theorem Ends.again {r s : Reader} (ends : Ends r s) : r.Repeated Ends s := by
  obtain ⟨ahead, place⟩ := r
  rcases ends with ⟨atEnd, rfl⟩ | ⟨stop, isEnd, order, next⟩
  · refine ⟨[], Reader.spans_nil.mpr rfl, fun rest idx same => Or.inl ⟨?_, rfl⟩⟩
    exact same.2.mp atEnd
  · exact ⟨[stop], ⟨order, next⟩, fun rest idx _ => Or.inr ⟨stop, isEnd, rfl, rfl⟩⟩

theorem Body.after_eq_iff {earlier elements : List Element} {body : Body} {s : Reader} :
    body.after earlier = ⟨elements, none, s⟩ ↔
      ∃ later, body = ⟨later, none, s⟩ ∧ elements = earlier ++ later := by
  obtain ⟨found, error, reader⟩ := body
  constructor
  · intro same
    cases same
    exact ⟨found, rfl, rfl⟩
  · rintro ⟨later, same, rfl⟩
    cases same
    rfl

theorem bodyRepeats (r : Reader) : BodyRepeats r := by
  induction size : r.rest.length using Nat.strongRecOn generalizing r with
  | ind size ih =>
      subst size
      intro nested pending elements s read
      have noError : (readMembers nested pending r).error = none := by rw [read]
      rcases ends_or_takes noError with ⟨t, ends, closed⟩ | ⟨round, t, takes⟩
      · cases closed.symm.trans read
        exact ends.again.imp fun a b again => again.readMembers_eq nested pending
      · obtain ⟨later, behind, rfl⟩ := Body.after_eq_iff.mp (takes.readMembers_eq.symm.trans read)
        have round' := takes.again fun t shorter => ih _ shorter t rfl
        have behind' := ih _ takes.length_lt t rfl _ _ _ _ behind
        refine (round'.trans behind').imp ?_
        rintro a c ⟨b, takesAgain, behindAgain⟩
        exact takesAgain.readMembers_eq.trans (Body.after_eq_iff.mpr ⟨later, behindAgain, rfl⟩)

/-- What is done with a token decides how the body is read on behind it. -/
theorem Does.readMembers_eq {nested : Bool} {pending : Option Token} {token : Token}
    {rest : List Token} {idx : Nat} {use : Use} {s : Reader}
    (does : Does nested pending token ⟨rest, idx + 1⟩ use s) :
    readMembers nested pending ⟨token :: rest, idx⟩ =
      (readMembers nested (Round.leaves ⟨token, idx, [], use⟩ pending) s).after
        (Round.adds ⟨token, idx, [], use⟩ pending) := by
  obtain ⟨behind, spans, -⟩ := does.again fun t _ => bodyRepeats t
  have takes : Takes nested pending ⟨token :: rest, idx⟩ ⟨token, idx, behind, use⟩ s := by
    refine ⟨congrArg _ spans.1, rfl, spans.2, ?_⟩
    rw [← spans.1]
    exact does
  exact takes.readMembers_eq

/-- A comment before something that is read does not decide whether and how far it is read. -/
theorem read_withComment {α : Type} {read : Option Token → Reading α}
    {document : Option Token → α → α} (law : ∀ note, read note = document note <$> read none)
    {given : Option Token} {r s : Reader} {value : α} (done : read given r = .ok value s)
    (other : Option Token) : ∃ value', read other r = .ok value' s := by
  rw [law given] at done
  obtain ⟨bare, read, -⟩ := map_eq_ok_iff.mp done
  rw [law other]
  exact ⟨document other bare, map_eq_ok_iff.mpr ⟨bare, read, rfl⟩⟩

theorem Does.withComment {nested : Bool} {pending : Option Token} {token : Token} {r s : Reader}
    {use : Use} (does : Does nested pending token r use s) (other : Option Token) :
    ∃ use', Does nested other token r use' s := by
  cases does with
  | comment isComment => exact ⟨_, .comment isComment⟩
  | declaration kindIs read =>
      obtain ⟨made, read'⟩ := read_withComment (readMember_eq token) read other
      exact ⟨_, .declaration kindIs read'⟩
  | attr kindIs read =>
      obtain ⟨found, read'⟩ := read_withComment (readAttribute_eq token) read other
      exact ⟨_, .attr kindIs read'⟩
  | object kindIs isNested read => exact ⟨_, .object kindIs isNested read⟩
  | inlineType kindIs read body =>
      obtain ⟨info, read'⟩ := read_withComment (readInlineInfo_eq token) read other
      exact ⟨_, .inlineType kindIs read' body⟩
  | block kindIs skipped => exact ⟨_, .block kindIs skipped⟩
  | idle isIdle => exact ⟨_, .idle isIdle⟩

/-- A pending comment does not decide whether and how far a body is read. -/
theorem readMembers_withComment {nested : Bool} {pending : Option Token} {r s : Reader}
    {elements : List Element} (read : readMembers nested pending r = ⟨elements, none, s⟩)
    (other : Option Token) : ∃ elements', readMembers nested other r = ⟨elements', none, s⟩ := by
  induction size : r.rest.length using Nat.strongRecOn generalizing pending other r elements with
  | ind size ih =>
      subst size
      have noError : (readMembers nested pending r).error = none := by rw [read]
      rcases ends_or_takes noError with ⟨t, ends, closed⟩ | ⟨round, t, takes⟩
      · cases closed.symm.trans read
        exact ⟨_, ends.readMembers_eq nested other⟩
      · obtain ⟨later, behind, -⟩ := Body.after_eq_iff.mp (takes.readMembers_eq.symm.trans read)
        obtain ⟨use, does⟩ := takes.does.withComment other
        have takes' : Takes nested other r { round with use } t :=
          ⟨takes.order, takes.place, takes.onward, does⟩
        obtain ⟨later', behind'⟩ := ih _ takes.length_lt behind _ rfl
        exact ⟨_, takes'.readMembers_eq.trans (Body.after_eq_iff.mpr ⟨later', behind', rfl⟩)⟩

end Element

end QmlDoc
