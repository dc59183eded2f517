import Mathlib.Logic.Relation
import QmlDoc.Proofs.ReadErrors

set_option autoImplicit false

namespace QmlDoc

namespace Reading

variable {α β : Type}

/-- What is still to be done, where the reader is, and the token that was read last. -/
structure State (α : Type) where
  reading : Reading α
  reader : Reader
  last : Option Token

inductive Step : State α → State α → Prop
  | take {next : Token → Reading α} {token : Token} {rest : List Token} {idx : Nat}
      {last : Option Token} :
      Step ⟨.take next, ⟨token :: rest, idx⟩, last⟩ ⟨next token, ⟨rest, idx + 1⟩, some token⟩
  | noToken {next : Token → Reading α} {idx : Nat} {last : Option Token} :
      Step ⟨.take next, ⟨[], idx⟩, last⟩ ⟨.fail .noToken, ⟨[], idx⟩, last⟩
  | look {next : Reader → Reading α} {r : Reader} {last : Option Token} :
      Step ⟨.look next, r, last⟩ ⟨next r, r, last⟩
  | put {place : Reader} {next : Reading α} {r : Reader} {last : Option Token} :
      Step ⟨.put place next, r, last⟩ ⟨next, place, last⟩

/-- The second state comes up on the way from the first one. -/
def State.Leads (state later : State α) : Prop :=
  Relation.ReflTransGen Step state later

def State.ofResult (last : Option Token) : EStateM.Result ReadError Reader α → State α
  | .ok value r => ⟨.done value, r, last⟩
  | .error error r => ⟨.fail error, r, last⟩

/-- The steps of reading lead to its result. -/
theorem leads_run (reading : Reading α) : ∀ (r : Reader) (last : Option Token),
    ∃ final, State.Leads ⟨reading, r, last⟩ (.ofResult final (reading r)) := by
  induction reading with
  | done value => exact fun r last => ⟨last, .refl⟩
  | fail error => exact fun r last => ⟨last, .refl⟩
  | take next ih =>
      rintro ⟨rest, idx⟩ last
      cases rest with
      | nil => exact ⟨last, .single .noToken⟩
      | cons token rest =>
          obtain ⟨final, leads⟩ := ih token ⟨rest, idx + 1⟩ (some token)
          exact ⟨final, .head .take leads⟩
  | look next ih =>
      intro r last
      obtain ⟨final, leads⟩ := ih r r last
      exact ⟨final, .head .look leads⟩
  | put place next ih =>
      intro r last
      obtain ⟨final, leads⟩ := ih place last
      exact ⟨final, .head .put leads⟩

/-- Reading that is started behind `last` puts the reader to places ahead of `start` only, blames
the token that was read last whenever it blames one, and ends in what `post` says. -/
def Keeps (start : Reader) (post : Option Token → α → Prop) : Reading α → Option Token → Prop
  | done value, last => post last value
  | fail error, last => ∀ token, error.token? = some token → last = some token
  | take next, _ => ∀ token, (next token).Keeps start post (some token)
  | look next, last => ∀ r, start.Reaches r → (next r).Keeps start post last
  | put place next, last => start.Reaches place ∧ next.Keeps start post last

/-- A state of reading that keeps to the tokens. -/
structure State.Kept (start : Reader) (state : State α) : Prop where
  reaches : start.Reaches state.reader
  keeps : state.reading.Keeps start (fun _ _ => True) state.last

theorem Step.kept {start : Reader} {state later : State α} (step : Step state later)
    (kept : state.Kept start) : later.Kept start := by
  obtain ⟨reaches, keeps⟩ := kept
  cases step with
  | take => exact ⟨reaches.trans (Reader.passes_cons _ _ _).reaches, keeps _⟩
  | noToken => exact ⟨reaches, fun _ isToken => nomatch isToken⟩
  | look => exact ⟨reaches, keeps _ reaches⟩
  | put => exact ⟨keeps.1, keeps.2⟩

theorem State.Leads.kept {start : Reader} {state later : State α} (leads : state.Leads later)
    (kept : state.Kept start) : later.Kept start := by
  induction leads with
  | refl => exact kept
  | tail _ step ih => exact step.kept ih

section Keeps

variable {start : Reader} {last : Option Token}

theorem keeps_bind {reading : Reading α} {later : α → Reading β} {post : Option Token → β → Prop}
    (keeps : reading.Keeps start (fun last value => (later value).Keeps start post last) last) :
    (reading >>= later).Keeps start post last := by
  change (reading.bind later).Keeps start post last
  induction reading generalizing last with
  | done value => exact keeps
  | fail error => exact keeps
  | take next ih => exact fun token => ih token (keeps token)
  | look next ih => exact fun r reaches => ih r (keeps r reaches)
  | put place next ih => exact ⟨keeps.1, ih keeps.2⟩

theorem keeps_ite {condition : Prop} [Decidable condition] {first second : Reading α}
    {post : Option Token → α → Prop} (holds : condition → first.Keeps start post last)
    (fails : ¬condition → second.Keeps start post last) :
    (if condition then first else second).Keeps start post last := by
  split
  · exact holds ‹_›
  · exact fails ‹_›

/-- A failure may blame the token that was read last. -/
theorem keeps_fail {error : ReadError} {post : Option Token → α → Prop} :
    (fail error).Keeps start post error.token? :=
  fun _ isToken => isToken

/-- A failure that is about no token blames none. -/
theorem keeps_silent {error : ReadError} {post : Option Token → α → Prop}
    (silent : error.token? = none) : (fail error).Keeps start post last := by
  intro token isToken
  rw [silent] at isToken
  cases isToken

theorem keeps_any {post : Option Token → Token → Prop} (after : ∀ token, post (some token) token) :
    any.Keeps start post last :=
  after

theorem keeps_get {post : Option Token → Reader → Prop}
    (after : ∀ r, start.Reaches r → post last r) : (get : Reading Reader).Keeps start post last :=
  after

theorem keeps_code {post : Option Token → Token → Prop}
    (after : ∀ token, post (some token) token) : code.Keeps start post last := by
  have bounded (ahead : List Token) : ∀ last, (codeFrom ahead).Keeps start post last := by
    induction ahead with
    | nil => exact fun last => keeps_silent rfl
    | cons _ ahead ih =>
        refine fun last => keeps_bind (keeps_any fun token => ?_)
        exact keeps_ite (fun _ => ih _) fun _ => after token
  exact keeps_bind (keeps_get fun r _ => bounded _ last)

theorem keeps_expect {expected : Expected} {post : Option Token → Token → Prop}
    (after : ∀ token, post (some token) token) : (expect expected).Keeps start post last := by
  refine keeps_bind (keeps_code fun token => keeps_ite (fun _ => after token) fun _ => ?_)
  exact keeps_fail

theorem keeps_expectValue {expected : Expected} {value : String}
    {post : Option Token → Token → Prop} (after : ∀ token, post (some token) token) :
    (expectValue expected value).Keeps start post last := by
  refine keeps_bind (keeps_expect fun token => keeps_ite (fun _ => after token) fun _ => ?_)
  exact keeps_fail

theorem keeps_skipBlock {post : Option Token → Unit → Prop} (after : ∀ last, post last ()) :
    skipBlock.Keeps start post last := by
  have bounded (ahead : List Token) : ∀ depth last,
      (blockFrom depth ahead).Keeps start post last := by
    induction ahead with
    | nil => exact fun depth last => keeps_silent rfl
    | cons _ ahead ih =>
        refine fun depth last => keeps_bind (keeps_any fun token => ?_)
        cases token.kind <;> cases depth <;> first | exact ih _ _ | exact after _
  exact keeps_bind (keeps_get fun r _ => bounded _ 0 last)

end Keeps

end Reading

open Reading

variable {start : Reader} {last : Option Token}

namespace Argument

theorem keeps_defaultValueFrom {post : Option Token → String × Token → Prop}
    (after : ∀ value token, post (some token) (value, token)) (n : Nat) :
    ∀ (value : String) (last : Option Token), (defaultValueFrom n value).Keeps start post last := by
  induction n with
  | zero => exact fun value last => keeps_silent rfl
  | succ n ih =>
      refine fun value last => keeps_bind (keeps_expect fun token => ?_)
      refine keeps_ite (fun _ => after value token) fun _ => keeps_ite (fun _ => ?_) fun _ => ?_
      · exact keeps_bind (keeps_expect fun _ => ih _ _)
      · exact keeps_ite (fun _ => keeps_bind (keeps_expect fun _ => ih _ _)) fun _ => ih _ _

theorem keeps_behindValue {valued : Argument} {stop : Token}
    {post : Option Token → Argument × Token → Prop}
    (after : ∀ argument token, post (some token) (argument, token)) :
    (behindValue valued stop).Keeps start post (some stop) := by
  refine keeps_ite (fun _ => keeps_bind (keeps_expect fun type => ?_)) fun _ => after valued stop
  exact keeps_bind (keeps_expect fun stop => after _ stop)

theorem keeps_behindName {named : Argument} {post : Option Token → Argument × Token → Prop}
    (after : ∀ argument token, post (some token) (argument, token)) :
    (behindName named).Keeps start post last := by
  refine keeps_bind (keeps_expect fun mark => ?_)
  refine keeps_ite (fun _ => keeps_bind (keeps_get fun r _ => ?_)) fun _ => keeps_behindValue after
  exact keeps_bind (keeps_defaultValueFrom (fun value stop => keeps_behindValue after) _ _ _)

/-- The token behind an argument is the one read last. -/
theorem keeps_readFrom {typed isSpread : Bool} {first : Token}
    {post : Option Token → Argument × Token → Prop}
    (after : ∀ argument token, post (some token) (argument, token)) :
    (readFrom typed isSpread first).Keeps start post last := by
  rw [readFrom_eq]
  refine keeps_ite (fun _ => ?_) fun _ => keeps_behindName after
  exact keeps_bind (keeps_expect fun name => keeps_behindName after)

theorem keeps_listFrom {typed : Bool} (n : Nat) : ∀ {isSpread : Bool} {first : Token}
    {post : Option Token → List Argument → Prop} {last : Option Token},
    (∀ last arguments, post last arguments) →
      (listFrom typed n isSpread first).Keeps start post last := by
  induction n with
  | zero => exact fun _ => keeps_silent rfl
  | succ n ih =>
      intro isSpread first post last after
      refine keeps_bind (keeps_readFrom fun argument stop => ?_)
      refine keeps_ite (fun _ => after _ _) fun _ => keeps_ite (fun _ => ?_) fun _ => ?_
      · exact keeps_fail
      · refine keeps_bind (keeps_expect fun next => keeps_ite (fun _ => ?_) fun _ => ?_)
        · exact keeps_bind (keeps_expect fun name => keeps_bind (ih fun _ _ => after _ _))
        · exact keeps_bind (ih fun _ _ => after _ _)

theorem keeps_readList {typed : Bool} {post : Option Token → List Argument → Prop}
    (after : ∀ last arguments, post last arguments) : (readList typed).Keeps start post last := by
  refine keeps_bind (keeps_code fun first => keeps_bind (keeps_get fun r _ => ?_))
  refine keeps_ite (fun _ => after _ _) fun _ => keeps_ite (fun _ => ?_) fun _ =>
    keeps_ite (fun _ => keeps_listFrom _ after) fun _ => ?_
  · exact keeps_bind (keeps_expect fun name => keeps_listFrom _ after)
  · exact keeps_fail

end Argument

theorem Property.keeps_read {keyword : String} {post : Option Token → Property → Prop}
    (after : ∀ last property, post last property) :
    (Property.read keyword).Keeps start post last :=
  keeps_bind (keeps_expect fun _ => keeps_bind (keeps_expect fun _ => after _ _))

theorem Function.keeps_read {post : Option Token → Function → Prop}
    (after : ∀ last function, post last function) : Function.read.Keeps start post last := by
  refine keeps_bind (keeps_expect fun name => keeps_bind (keeps_expectValue fun _ => ?_))
  exact keeps_bind (Argument.keeps_readList fun _ _ => after _ _)

/-- The place to which a signal without arguments returns is where the reader has been. -/
theorem Signal.keeps_read {post : Option Token → Signal → Prop}
    (after : ∀ last signal, post last signal) : Signal.read.Keeps start post last := by
  refine keeps_bind (keeps_expect fun name => keeps_bind (keeps_get fun behind reaches => ?_))
  refine keeps_bind (keeps_code fun token => keeps_ite (fun _ => ?_) fun _ => ?_)
  · exact keeps_bind (Argument.keeps_readList fun _ _ => after _ _)
  · exact keeps_bind ⟨reaches, after _ _⟩

theorem Enumerator.keeps_restFrom {post : Option Token → Enumerator × Bool → Prop}
    (after : ∀ last enumerator, post last enumerator) (n : Nat) :
    ∀ (enumerator : Enumerator) (last : Option Token),
      (restFrom n enumerator).Keeps start post last := by
  induction n with
  | zero => exact fun enumerator last => keeps_silent rfl
  | succ n ih =>
      refine fun enumerator last => keeps_bind (keeps_get fun r _ => ?_)
      refine keeps_ite (fun _ => after _ _) fun _ => keeps_bind (keeps_any fun token => ?_)
      cases token.kind
      case inlineComment | comment => exact ih _ _
      case blockEnd => exact after _ _
      case char =>
          refine keeps_ite (fun _ => after _ _) fun _ => keeps_ite (fun _ => ?_) fun _ => ih _ _
          exact keeps_bind (keeps_expect fun value => ih _ _)
      all_goals exact keeps_fail

theorem Enumerator.keeps_read {name : String} {post : Option Token → Enumerator × Bool → Prop}
    (after : ∀ last enumerator, post last enumerator) :
    (Enumerator.read name).Keeps start post last :=
  keeps_bind (keeps_get fun _ _ => keeps_restFrom after _ _ _)

theorem Enumeration.keeps_bodyFrom {post : Option Token → Enumeration → Prop}
    (after : ∀ last enumeration, post last enumeration) (n : Nat) :
    ∀ (enumeration : Enumeration) (pending : Option Token) (earlier : Option Enumerator)
      (last : Option Token),
      (bodyFrom n enumeration pending earlier).Keeps start post last := by
  induction n with
  | zero => exact fun enumeration pending earlier last => keeps_silent rfl
  | succ n ih =>
      refine fun enumeration pending earlier last => keeps_bind (keeps_get fun r _ => ?_)
      refine keeps_ite (fun _ => after _ _) fun _ => keeps_bind (keeps_any fun token => ?_)
      cases token.kind
      case inlineComment => cases earlier <;> exact ih _ _ _ _
      case comment => exact ih _ _ _ _
      case blockEnd => exact after _ _
      case element =>
          refine keeps_bind (Enumerator.keeps_read fun last found => ?_)
          exact keeps_ite (fun _ => after _ _) fun _ => ih _ _ _ _
      case char => exact keeps_ite (fun _ => ih _ _ _ _) fun _ => keeps_fail
      all_goals exact keeps_fail

theorem Enumeration.keeps_read {post : Option Token → Enumeration → Prop}
    (after : ∀ last enumeration, post last enumeration) :
    Enumeration.read.Keeps start post last := by
  refine keeps_bind (keeps_expect fun name => keeps_bind (keeps_expect fun _ => ?_))
  exact keeps_bind (keeps_get fun r _ => keeps_bodyFrom after _ _ _ _ _)

namespace Element

theorem keeps_readMember {keyword : Token} {comment : Option Token}
    {post : Option Token → Option Element → Prop} (after : ∀ last found, post last found) :
    (readMember keyword comment).Keeps start post (some keyword) := by
  refine keeps_ite (fun _ => ?_) fun _ => keeps_ite (fun _ => ?_) fun _ =>
    keeps_ite (fun _ => ?_) fun _ => keeps_ite (fun _ => ?_) fun _ => ?_
  · exact keeps_bind (Property.keeps_read fun _ _ => after _ _)
  · exact keeps_bind (Function.keeps_read fun _ _ => after _ _)
  · exact keeps_bind (Signal.keeps_read fun _ _ => after _ _)
  · exact keeps_bind (Enumeration.keeps_read fun _ _ => after _ _)
  · exact keeps_fail

theorem keeps_readAttribute {name : Token} {comment : Option Token}
    {post : Option Token → Element → Prop} (after : ∀ last found, post last found) :
    (readAttribute name comment).Keeps start post last := by
  refine keeps_bind (keeps_expect fun _ => keeps_bind (keeps_any fun first => ?_))
  refine keeps_ite (fun _ => ?_) fun _ => after _ _
  exact keeps_bind (keeps_skipBlock fun _ => after _ _)

theorem keeps_openBlock {post : Option Token → Unit → Prop} (after : ∀ last, post last ()) :
    openBlock.Keeps start post last := by
  refine keeps_bind (keeps_code fun token => keeps_ite (fun _ => after _) fun _ => ?_)
  exact keeps_fail

theorem keeps_readInlineInfo {name : Token} {comment : Option Token}
    {post : Option Token → TypeInfo → Prop} (after : ∀ last info, post last info) :
    (readInlineInfo name comment).Keeps start post last := by
  refine keeps_bind (keeps_expect fun _ => keeps_bind (keeps_expect fun base => ?_))
  exact keeps_bind (keeps_openBlock fun _ => after _ _)

theorem keeps_turnAt {inside : Reading (List Element)} {nested : Bool} {pending : Option Token}
    {token : Token} {post : Option Token → Turn → Prop}
    (bodies : ∀ {post : Option Token → List Element → Prop} {last : Option Token},
      (∀ last elements, post last elements) → inside.Keeps start post last)
    (after : ∀ last turn, post last turn) :
    (turnAt inside nested pending token).Keeps start post (some token) := by
  rw [turnAt]
  cases token.kind <;> dsimp only
  case keyword => exact keeps_bind (keeps_readMember fun _ _ => after _ _)
  case attributeName => exact keeps_bind (keeps_readAttribute fun _ _ => after _ _)
  case component =>
      refine keeps_ite (fun _ => keeps_bind (keeps_openBlock fun _ => ?_)) fun _ => after _ _
      exact keeps_bind (bodies fun _ _ => after _ _)
  case inlineComponent =>
      refine keeps_bind (keeps_readInlineInfo fun _ _ => ?_)
      exact keeps_bind (bodies fun _ _ => after _ _)
  case blockStart => exact keeps_bind (keeps_skipBlock fun _ => after _ _)
  all_goals exact after _ _

theorem keeps_elementsFrom (n : Nat) : ∀ {nested : Bool} {pending : Option Token}
    {post : Option Token → List Element → Prop} {last : Option Token},
    (∀ last elements, post last elements) →
      (elementsFrom n nested pending).Keeps start post last := by
  induction n with
  | zero => exact fun _ => keeps_silent rfl
  | succ n ih =>
      intro nested pending post last after
      refine keeps_bind (keeps_bind
        (keeps_get fun r _ => keeps_ite (fun _ => after _ _) fun _ => ?_))
      refine keeps_bind (keeps_any fun token => keeps_turnAt ih fun last turn => ?_)
      cases turn with
      | ends elements => exact after _ _
      | goesOn elements pending => exact keeps_bind (ih fun _ _ => after _ _)

end Element

theorem Reader.Reaches.past {tokens : List Token} {s : Reader}
    (reaches : (Reader.ofTokens tokens).Reaches s) :
    s = .past tokens s.idx ∧ s.idx ≤ tokens.length := by
  obtain ⟨read, order, place⟩ := reaches
  obtain ⟨rest, idx⟩ := s
  obtain rfl : tokens = read ++ rest := order
  obtain rfl : idx = read.length := by simpa [Reader.ofTokens] using place
  simp [Reader.past]

namespace Document

/-- The document, unless an error ended it. -/
def Parsed.result (parsed : Parsed) : EStateM.Result ReadError Reader Document :=
  match parsed.error with
  | none => .ok parsed.document parsed.reader
  | some error => .error error parsed.reader

/-- As `takeFrom`, where an error leaves no document. -/
def taking (take : Document → Token → Except ReadError (Document × Bool)) :
    List Token → Document → Reading Document
  | [], doc => pure doc
  | _ :: ahead, doc => do
      match take doc (← Reading.any) with
      | .ok (doc, true) => taking take ahead doc
      | .ok (doc, false) => pure doc
      | .error error => .fail error

def takingBody (doc : Document) (nested : Bool) : Reading Document := do
  Element.openBlock
  let elements ← Element.elementsFrom ((← get).rest.length + 1) nested none
  pure { doc with elements := doc.elements ++ elements }

/-- As `read`, where an error leaves no document. -/
def reading (doc : Document) (nested : Bool) : Reading Document := do
  let doc ← taking takeHeader (← get).rest doc
  let doc ← doc.takingBody nested
  taking takeFooter (← get).rest doc

theorem taking_eq (take : Document → Token → Except ReadError (Document × Bool))
    (tokens : List Token) : ∀ (doc : Document) (idx : Nat),
    taking take tokens doc ⟨tokens, idx⟩ = (doc.takeFrom take idx tokens).result := by
  induction tokens with
  | nil => exact fun doc idx => rfl
  | cons token rest ih =>
      intro doc idx
      rw [taking, any_bind, takeFrom]
      rcases take doc token with error | ⟨next, goesOn⟩
      · rfl
      · cases goesOn with
        | false => rfl
        | true => exact ih next (idx + 1)

theorem takingBody_eq (doc : Document) (nested : Bool) (r : Reader) :
    doc.takingBody nested r = (doc.readBody nested r).result := by
  rw [takingBody, readBody, Element.readBody, run_bind]
  cases Element.openBlock r with
  | error error s => rfl
  | ok value s =>
      dsimp only
      rw [get_bind, run_bind, Element.elementsFrom_eq, Element.Body.result]
      obtain ⟨elements, error, t⟩ := Element.membersFrom (s.rest.length + 1) nested none s
      cases error <;> rfl

theorem bind_andThen {reading : Reading Document} {r : Reader} {parsed : Parsed}
    (read : reading r = parsed.result) {next : Document → Reading Document}
    {onward : Document → Reader → Parsed} (same : ∀ doc s, next doc s = (onward doc s).result) :
    (reading >>= next) r = (parsed.andThen onward).result := by
  obtain ⟨doc, error, s⟩ := parsed
  rw [run_bind, read]
  cases error with
  | none => exact same doc s
  | some error => rfl

theorem reading_eq (doc : Document) (nested : Bool) (tokens : List Token) :
    doc.reading nested (Reader.ofTokens tokens) = (doc.read nested tokens).result := by
  have header : taking takeHeader tokens doc (Reader.ofTokens tokens) =
      (doc.readHeader (Reader.ofTokens tokens)).result := taking_eq takeHeader tokens doc 0
  rw [reading, get_bind, ← bind_assoc]
  refine bind_andThen (bind_andThen header fun doc s => doc.takingBody_eq nested s) fun doc s => ?_
  exact taking_eq takeFooter s.rest doc s.idx

theorem keeps_takeHeader {doc : Document} {token : Token} {error : ReadError}
    {post : Option Token → Document → Prop} (failed : doc.takeHeader token = .error error) :
    (Reading.fail error).Keeps start post (some token) := by
  rcases doc.takeHeader_cases token with
    ⟨next, taken, -⟩ | ⟨noWord, -⟩ | ⟨⟨next, named⟩ | unexpected, -⟩
  · cases taken.symm.trans failed
  · cases noWord.symm.trans failed
    exact keeps_silent rfl
  · cases named.symm.trans failed
  · cases unexpected.symm.trans failed
    exact keeps_fail

theorem keeps_takeFooter {doc : Document} {token : Token} {error : ReadError}
    {post : Option Token → Document → Prop} (failed : doc.takeFooter token = .error error) :
    (Reading.fail error).Keeps start post (some token) := by
  rw [takeFooter] at failed
  split at failed <;> cases failed
  exact keeps_fail

theorem keeps_taking {take : Document → Token → Except ReadError (Document × Bool)}
    {post : Option Token → Document → Prop}
    (blames : ∀ {doc token error}, take doc token = .error error →
      (Reading.fail error).Keeps start post (some token))
    (after : ∀ last doc, post last doc) (ahead : List Token) :
    ∀ (doc : Document) (last : Option Token), (taking take ahead doc).Keeps start post last := by
  induction ahead with
  | nil => exact fun doc last => after last doc
  | cons _ ahead ih =>
      refine fun doc last => keeps_bind (keeps_any fun token => ?_)
      split
      next => exact ih _ _
      next => exact after _ _
      next error failed => exact blames failed

theorem keeps_reading (doc : Document) (nested : Bool) :
    (doc.reading nested).Keeps start (fun _ _ => True) last := by
  refine keeps_bind (keeps_get fun r _ => keeps_bind ?_)
  refine keeps_taking keeps_takeHeader (fun _ doc => ?_) _ _ _
  refine keeps_bind (keeps_bind (Element.keeps_openBlock fun _ => ?_))
  refine keeps_bind (keeps_get fun r _ => keeps_bind ?_)
  refine Element.keeps_elementsFrom _ fun _ elements => keeps_bind (keeps_get fun r _ => ?_)
  exact keeps_taking keeps_takeFooter (fun _ _ => trivial) _ _ _

/-- An error about a token leaves the reader right behind the token. -/
theorem read_blames (doc : Document) (nested : Bool) (tokens : List Token) {error : ReadError}
    {token : Token} (failed : (doc.read nested tokens).error = some error)
    (isToken : error.token? = some token) :
    1 ≤ (doc.read nested tokens).reader.idx ∧
      tokens[(doc.read nested tokens).reader.idx - 1]? = some token := by
  rcases doc.read_meets nested tokens with ⟨-, noWord⟩ | ⟨-, meets, -⟩
  · obtain rfl : error = .noWord := Option.some.inj (failed.symm.trans noWord)
    cases isToken
  · rw [Parsed.Meets, failed] at meets
    rcases meets with ⟨rfl, -⟩ | ⟨other, isOther, passes⟩
    · cases isToken
    · obtain rfl : other = token := Option.some.inj (isOther.symm.trans isToken)
      obtain ⟨place, atPlace, stopped⟩ := passes.past
      rw [stopped]
      exact ⟨Nat.le_add_left 1 place, atPlace⟩

/-- Without an error, and where a token is missing, the reader is behind all tokens. -/
theorem read_idx_eq_length (doc : Document) (nested : Bool) (tokens : List Token)
    (ended : (doc.read nested tokens).error = none ∨
      (doc.read nested tokens).error = some .noToken) :
    (doc.read nested tokens).reader.idx = tokens.length := by
  rcases doc.read_meets nested tokens with ⟨-, noWord⟩ | ⟨-, meets, atEnd⟩
  · rw [noWord] at ended
    rcases ended with none | other
    · cases none
    · cases other
  · rw [Parsed.Meets] at meets
    rcases ended with none | noToken
    · rw [none] at meets
      rw [meets.past_end (atEnd none)]
      rfl
    · rw [noToken] at meets
      rcases meets with ⟨-, reaches, noneLeft⟩ | ⟨token, isToken, -⟩
      · rw [reaches.past_end noneLeft]
        rfl
      · cases isToken

/-- A reader stays on the tokens of a file while it reads them, also where it returns to an earlier
place. Without an error all tokens are read in the end. An error that is about a token is about the
one that was read last, right before the place where the reader is. If a token is needed and none
is left, all of them are read. -/
theorem read_trail (doc : Document) (nested : Bool) (tokens : List Token) :
    let parsed := doc.read nested tokens
    let start : Reading.State Document := ⟨doc.reading nested, Reader.ofTokens tokens, none⟩
    (∃ last, start.Leads (.ofResult last parsed.result) ∧
        ∀ error token, parsed.error = some error → error.token? = some token →
          last = some token) ∧
      (∀ state, start.Leads state →
        state.reader = .past tokens state.reader.idx ∧ state.reader.idx ≤ tokens.length) ∧
      (parsed.error = none → parsed.reader.idx = tokens.length) ∧
      (∀ error token, parsed.error = some error → error.token? = some token →
        1 ≤ parsed.reader.idx ∧ tokens[parsed.reader.idx - 1]? = some token) ∧
      (parsed.error = some .noToken → parsed.reader.idx = tokens.length) := by
  intro parsed start
  have kept : start.Kept (Reader.ofTokens tokens) :=
    ⟨Reader.Reaches.refl _, doc.keeps_reading nested⟩
  obtain ⟨last, leads⟩ := (doc.reading nested).leads_run (Reader.ofTokens tokens) none
  rw [reading_eq] at leads
  refine ⟨⟨last, leads, fun error token failed isToken => ?_⟩, ?_, ?_, ?_, ?_⟩
  · have keeps := (leads.kept kept).keeps
    rw [Parsed.result, failed] at keeps
    exact keeps token isToken
  · exact fun state toState => (toState.kept kept).reaches.past
  · exact fun ended => doc.read_idx_eq_length nested tokens (Or.inl ended)
  · exact fun error token failed isToken => doc.read_blames nested tokens failed isToken
  · exact fun ended => doc.read_idx_eq_length nested tokens (Or.inr ended)

/-- A signal without arguments, behind which the reader returns over a comment and a keyword, and
then a property without a name. -/
theorem read_trail_signal :
    let text := "Item \x7b\n  signal clicked // soon\n  property int\n\x7d"
    let tokens := (Token.tokenize text).tokens
    let doc : Document := { info := { name := "Sample" } }
    let parsed := doc.read true tokens
    let brace : Token := ⟨.blockEnd, "\x7d", 47, 0⟩
    let error : ReadError := .wrongKind (.one .element) brace
    (parsed.error = some error ∧ error.token? = some brace) ∧
      (∃ state : Reading.State Document,
        Reading.State.Leads ⟨doc.reading true, Reader.ofTokens tokens, none⟩ state ∧
          state.last = some brace ∧ state.reader.idx ≤ tokens.length) ∧
      1 ≤ parsed.reader.idx ∧ tokens[parsed.reader.idx - 1]? = some brace := by
  intro text tokens doc parsed brace error
  have failed : parsed.error = some error ∧ error.token? = some brace := by decide +kernel
  obtain ⟨⟨last, leads, blames⟩, within, -, isLast, -⟩ := read_trail doc true tokens
  refine ⟨failed, ⟨_, leads, ?_, (within _ leads).2⟩, isLast error brace failed.1 failed.2⟩
  have blamed := blames error brace failed.1 failed.2
  rw [Parsed.result]
  split
  · exact blamed
  · exact blamed

end Document

end QmlDoc
