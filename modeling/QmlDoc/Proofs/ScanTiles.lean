import QmlDoc.Proofs.LexemeFits
import QmlDoc.Text.Basic
import QmlDoc.Token.Scanner

set_option autoImplicit false

namespace QmlDoc

namespace Scanner

/-- The scanner stands in `text`, and its counters agree with what lies behind it. -/
structure StandsIn (s : Scanner) (text : List Char) : Prop where
  whole : s.text = text
  idx : s.idx = s.before.length
  column : s.column = (s.before.takeWhile (· ≠ '\n')).length

variable {s stop : Scanner} {text : List Char} {tokens : List Token}

theorem standsIn_ofText (text : String) :
    (ofText text).StandsIn (joinContinued text.toList) :=
  ⟨rfl, rfl, rfl⟩

theorem StandsIn.take_idx (stands : s.StandsIn text) : text.take s.idx = s.before.reverse := by
  rw [← stands.whole, stands.idx, ← List.length_reverse]
  exact List.take_left

theorem StandsIn.drop_idx (stands : s.StandsIn text) : text.drop s.idx = s.rest := by
  rw [← stands.whole, stands.idx, ← List.length_reverse]
  exact List.drop_left

theorem StandsIn.length_rest (stands : s.StandsIn text) :
    s.idx + s.rest.length = text.length := by
  rw [← stands.whole, stands.idx, Scanner.text, List.length_append, List.length_reverse]

theorem StandsIn.atEnd (stands : s.StandsIn text) : s.atEnd = s.rest.isEmpty := by
  simp [Scanner.atEnd, stands.idx]

theorem StandsIn.column_eq (stands : s.StandsIn text) :
    s.column = (Text.lineHead text s.idx).length := by
  rw [Text.lineHead, stands.take_idx, List.reverse_reverse, List.length_reverse, stands.column]

theorem columnAt_length (before : List Char) :
    columnAt before.length before = (before.takeWhile (· ≠ '\n')).length := by
  have parts := congrArg List.length (@List.takeWhile_append_dropWhile _ (· ≠ '\n') before)
  rw [List.length_append] at parts
  rw [columnAt]
  omega

theorem passBlanks_eq (before : List Char) (idx column : Nat) (lineStart : Bool)
    (rest : List Char) :
    ∃ column', passBlanks before idx column lineStart rest =
      { before := (rest.takeWhile Text.isBlank).reverse ++ before
        rest := rest.dropWhile Text.isBlank
        idx := idx + (rest.takeWhile Text.isBlank).length
        column := column'
        lineStart := lineStart || (rest.takeWhile Text.isBlank).contains '\n' } := by
  fun_induction passBlanks before idx column lineStart rest with
  | case1 before idx column lineStart rest ih =>
      obtain ⟨column', passed⟩ := ih
      have blank : Text.isBlank '\n' = true := by decide
      exact ⟨column', by simp [passed, blank, Nat.add_comm, Nat.add_left_comm]⟩
  | case2 before idx column lineStart c rest inLine blank ih =>
      obtain ⟨column', passed⟩ := ih
      exact ⟨column', by simp [passed, blank, Ne.symm inLine, Nat.add_comm, Nat.add_left_comm]⟩
  | case3 before idx column lineStart c rest inLine solid => exact ⟨column, by simp [solid]⟩
  | case4 before idx column lineStart => exact ⟨column, by simp⟩

theorem passBlanks_standsIn (before : List Char) (idx column : Nat) (lineStart : Bool)
    (rest : List Char)
    (stands : StandsIn ⟨before, rest, idx, column, lineStart⟩ text) :
    (passBlanks before idx column lineStart rest).StandsIn text := by
  fun_induction passBlanks before idx column lineStart rest with
  | case1 before idx column lineStart rest ih =>
      refine ih ⟨?_, ?_, ?_⟩
      · simpa [Scanner.text] using stands.whole
      · exact congrArg (· + 1) stands.idx
      · rfl
  | case2 before idx column lineStart c rest inLine blank ih =>
      refine ih ⟨?_, ?_, ?_⟩
      · simpa [Scanner.text] using stands.whole
      · exact congrArg (· + 1) stands.idx
      · rw [List.takeWhile_cons_of_pos (by simpa using inLine)]
        exact congrArg (· + 1) stands.column
  | case3 => exact stands
  | case4 => exact stands

theorem skipBlanks_eq (s : Scanner) :
    ∃ column, s.skipBlanks =
      { before := (s.rest.takeWhile Text.isBlank).reverse ++ s.before
        rest := s.rest.dropWhile Text.isBlank
        idx := s.idx + (s.rest.takeWhile Text.isBlank).length
        column
        lineStart := s.idx = 0 || (s.rest.takeWhile Text.isBlank).contains '\n' } :=
  passBlanks_eq _ _ _ _ _

theorem skipBlanks_before (s : Scanner) :
    s.skipBlanks.before = (s.rest.takeWhile Text.isBlank).reverse ++ s.before := by
  obtain ⟨column, passed⟩ := s.skipBlanks_eq
  rw [passed]

theorem skipBlanks_rest (s : Scanner) : s.skipBlanks.rest = s.rest.dropWhile Text.isBlank := by
  obtain ⟨column, passed⟩ := s.skipBlanks_eq
  rw [passed]

theorem skipBlanks_length_le (s : Scanner) : s.skipBlanks.rest.length ≤ s.rest.length := by
  rw [skipBlanks_rest]
  exact (List.dropWhile_suffix _).length_le

theorem skipBlanks_idx (s : Scanner) :
    s.skipBlanks.idx = s.idx + (s.rest.takeWhile Text.isBlank).length := by
  obtain ⟨column, passed⟩ := s.skipBlanks_eq
  rw [passed]

theorem skipBlanks_lineStart (s : Scanner) :
    s.skipBlanks.lineStart = (s.idx = 0 || (s.rest.takeWhile Text.isBlank).contains '\n') := by
  obtain ⟨column, passed⟩ := s.skipBlanks_eq
  rw [passed]

theorem StandsIn.skipBlanks (stands : s.StandsIn text) : s.skipBlanks.StandsIn text :=
  passBlanks_standsIn _ _ _ _ _ ⟨stands.whole, stands.idx, stands.column⟩

/-- What is passed before the next token is white space. -/
theorem StandsIn.skipped (stands : s.StandsIn text) :
    text.extract s.idx s.skipBlanks.idx = s.rest.takeWhile Text.isBlank := by
  rw [List.extract, stands.drop_idx, skipBlanks_idx, Nat.add_sub_cancel_left]
  exact (List.prefix_iff_eq_take.mp (List.takeWhile_prefix _)).symm

/-- A token never starts with white space. -/
theorem skipBlanks_solid (s : Scanner) :
    ∀ c, s.skipBlanks.rest.head? = some c → Text.isBlank c = false := by
  intro c first
  have solid := List.head?_dropWhile_not Text.isBlank s.rest
  rw [← skipBlanks_rest, first] at solid
  simpa using solid

/-- A token never starts with a newline. -/
theorem skipBlanks_inLine {c : Char} {rest : List Char} (ahead : s.skipBlanks.rest = c :: rest) :
    c ≠ '\n' := by
  rintro rfl
  have solid := s.skipBlanks_solid '\n' (by rw [ahead]; rfl)
  cases solid

theorem StandsIn.forward (stands : s.StandsIn text) (n : Nat) (inside : n ≤ s.rest.length) :
    (s.forward n).StandsIn text := by
  have place : (s.forward n).idx = (s.forward n).before.length := by
    simp only [Scanner.forward, List.length_append, List.length_reverse, List.length_take,
      stands.idx]
    omega
  refine ⟨?_, place, ?_⟩
  · rw [← stands.whole]
    simp [Scanner.text, Scanner.forward]
  · calc (s.forward n).column
      _ = columnAt (s.forward n).idx (s.forward n).before := rfl
      _ = ((s.forward n).before.takeWhile (· ≠ '\n')).length := by rw [place, columnAt_length]

/-- Reading on from `s`: the tokens found, in order, and the end that is reached behind them. -/
inductive Reads : Scanner → List Token → Scanner → Prop
  | done {s : Scanner} (ends : s.skipBlanks.rest = []) : Reads s [] s.skipBlanks
  | next {s stop : Scanner} {lexeme : Lexeme} {tokens : List Token}
      (found : Lexeme.find? s.skipBlanks.lineStart s.skipBlanks.before.head? s.skipBlanks.rest =
        some lexeme)
      (later : Reads (s.skipBlanks.forward lexeme.extent) tokens stop) :
      Reads s (s.skipBlanks.token lexeme.kind (String.ofList lexeme.text) :: tokens) stop

/-- Every token takes at least one character, so their number is bounded by the text. -/
theorem scanUpTo_reads (n : Nat) (stands : s.StandsIn text) (enough : s.rest.length < n) :
    (scanUpTo n s).complete = true ∧ Reads s (scanUpTo n s).tokens (scanUpTo n s).stop := by
  induction n generalizing s with
  | zero => omega
  | succ n ih =>
      have here := stands.skipBlanks
      have fewer := skipBlanks_length_le s
      rw [scanUpTo]
      cases ahead : s.skipBlanks.rest with
      | nil =>
          rw [if_pos (by rw [here.atEnd, ahead]; rfl)]
          exact ⟨rfl, .done ahead⟩
      | cons c rest =>
          obtain ⟨lexeme, found⟩ := Lexeme.find?_exists s.skipBlanks.lineStart
            s.skipBlanks.before.head? c rest (skipBlanks_inLine ahead)
          rw [← ahead] at found
          have fits := Lexeme.find?_fits found
          have shorter : (s.skipBlanks.forward lexeme.extent).rest.length < n := by
            have taken := fits.extent_pos
            have inside := fits.extent_le
            simp only [Scanner.forward, List.length_drop]
            omega
          obtain ⟨complete, later⟩ := ih (here.forward _ fits.extent_le) shorter
          rw [if_neg (by rw [here.atEnd, ahead]; simp), next?, found]
          exact ⟨complete, .next found later⟩

/-- The bound on the number of tokens plays no part in what is read. -/
theorem scanUpTo_of_reads (reads : Reads s tokens stop) (stands : s.StandsIn text) (n : Nat)
    (enough : tokens.length < n) : scanUpTo n s = ⟨tokens, stop, true⟩ := by
  induction reads generalizing n with
  | @done s ends =>
      obtain ⟨n, rfl⟩ := Nat.exists_eq_add_one_of_ne_zero (Nat.ne_zero_of_lt enough)
      rw [scanUpTo, if_pos (by rw [stands.skipBlanks.atEnd, ends]; rfl)]
  | @next s stop lexeme tokens found later ih =>
      obtain ⟨n, rfl⟩ := Nat.exists_eq_add_one_of_ne_zero (Nat.ne_zero_of_lt enough)
      have fits := Lexeme.find?_fits found
      have more : s.skipBlanks.rest ≠ [] := by
        intro ends
        rw [ends] at fits
        exact fits.nonempty (List.append_eq_nil_iff.mp (List.prefix_nil.mp fits.front)).2
      have rest := ih (stands.skipBlanks.forward _ fits.extent_le) n (by simpa using enough)
      rw [scanUpTo, if_neg (by simpa [stands.skipBlanks.atEnd] using more), next?, found]
      simp [rest]

/-- Every text is read to its end. -/
theorem scan_reads (stands : s.StandsIn text) :
    s.scan.complete = true ∧ Reads s s.scan.tokens s.scan.stop :=
  scanUpTo_reads _ stands (Nat.lt_succ_self _)

end Scanner

namespace Token

def stop (token : Token) : Nat :=
  token.idx + token.kind.opening.length + token.value.length

/-- The token is the piece of the text from its place on, and its column is the number of
characters between that place and the start of its line. -/
structure Covers (token : Token) (text : List Char) : Prop where
  starts : token.idx < token.stop
  ends : token.stop ≤ text.length
  opening : text.extract token.idx (token.idx + token.kind.opening.length) = token.kind.opening
  value : text.extract (token.idx + token.kind.opening.length) token.stop = token.value.toList
  column : token.column = (Text.lineHead text token.idx).length

/-- The tokens cover the text between two places in order, up to white space. -/
def Tile (text : List Char) (start : Nat) : List Token → Nat → Prop
  | [], stop => start ≤ stop ∧ (text.extract start stop).all Text.isBlank
  | token :: later, stop =>
      start ≤ token.idx ∧ (text.extract start token.idx).all Text.isBlank ∧
        token.Covers text ∧ Tile text token.stop later stop

end Token

namespace Scanner

variable {s stop : Scanner} {text : List Char} {tokens : List Token}

theorem token_stop (s : Scanner) {lexeme : Lexeme} (fits : lexeme.Fits s.rest) :
    (s.token lexeme.kind (String.ofList lexeme.text)).stop = s.idx + lexeme.extent := by
  rw [Token.stop, Lexeme.extent, fits.lead]
  simp [Scanner.token, Nat.add_assoc]

theorem StandsIn.token_covers (stands : s.StandsIn text) {lexeme : Lexeme}
    (fits : lexeme.Fits s.rest) :
    (s.token lexeme.kind (String.ofList lexeme.text)).Covers text := by
  have stop := token_stop s fits
  obtain ⟨further, rest⟩ := fits.front
  rw [List.append_assoc, ← stands.drop_idx] at rest
  refine ⟨?_, ?_, ?_, ?_, stands.column_eq⟩
  · have positive := fits.extent_pos
    rw [stop]
    exact Nat.lt_add_of_pos_right positive
  · have inside := fits.extent_le
    have whole := stands.length_rest
    omega
  · simp [List.extract, Scanner.token, ← rest]
  · simp [List.extract, Scanner.token, Token.stop, ← List.drop_drop, ← rest]

theorem Reads.tile (reads : Reads s tokens stop) (stands : s.StandsIn text) :
    Token.Tile text s.idx tokens text.length := by
  induction reads with
  | @done s ends =>
      have whole := stands.skipBlanks.length_rest
      rw [ends, List.length_nil, Nat.add_zero] at whole
      have later := skipBlanks_idx s
      refine ⟨by omega, ?_⟩
      rw [← whole, stands.skipped]
      exact List.all_takeWhile
  | @next s stop lexeme tokens found later ih =>
      have here := stands.skipBlanks
      have fits := Lexeme.find?_fits found
      refine ⟨?_, ?_, here.token_covers fits, ?_⟩
      · calc s.idx
          _ ≤ s.idx + (s.rest.takeWhile Text.isBlank).length := Nat.le_add_right _ _
          _ = s.skipBlanks.idx := (skipBlanks_idx s).symm
      · calc (text.extract s.idx s.skipBlanks.idx).all Text.isBlank
          _ = (s.rest.takeWhile Text.isBlank).all Text.isBlank := by rw [stands.skipped]
          _ = true := List.all_takeWhile
      · rw [token_stop _ fits]
        exact ih (here.forward _ fits.extent_le)

theorem Reads.length_le (reads : Reads s tokens stop) : tokens.length ≤ s.rest.length := by
  induction reads with
  | done => exact Nat.zero_le _
  | @next s stop lexeme tokens found later ih =>
      have fits := Lexeme.find?_fits found
      have taken := fits.extent_pos
      have inside := fits.extent_le
      have fewer := skipBlanks_length_le s
      simp only [Scanner.forward, List.length_drop] at ih
      rw [List.length_cons]
      omega

end Scanner

end QmlDoc
