import QmlDoc.Proofs.LexemeBraces
import QmlDoc.Proofs.ScanTiles

set_option autoImplicit false

namespace QmlDoc

/-- An apostrophe stands on either side of the place. -/
def Text.isQuoted (text : List Char) (place : Nat) : Bool :=
  (0 < place && text[place - 1]? = some '\'') || text[place + 1]? = some '\''

def Text.places (first last : Nat) : List Nat :=
  List.range' first (last - first)

theorem Text.mem_places (first last place : Nat) :
    place ∈ places first last ↔ first ≤ place ∧ place < last := by
  rw [places, List.mem_range'_1]
  omega

theorem Text.places_append (first middle last : Nat) (lower : first ≤ middle)
    (upper : middle ≤ last) :
    places first last = places first middle ++ places middle last := by
  obtain ⟨before, rfl⟩ := Nat.exists_eq_add_of_le lower
  obtain ⟨behind, rfl⟩ := Nat.exists_eq_add_of_le upper
  have whole : first + before + behind - first = before + behind := by omega
  simp only [places, whole, Nat.add_sub_cancel_left]
  exact List.range'_append_1.symm

/-- The opening braces at the places, less the closing ones. -/
def braceBalance (text : List Char) (places : List Nat) : Int :=
  places.countP (text[·]? = some '\x7b') - places.countP (text[·]? = some '\x7d')

theorem braceBalance_append (text : List Char) (first later : List Nat) :
    braceBalance text (first ++ later) = braceBalance text first + braceBalance text later := by
  simp only [braceBalance, List.countP_append]
  omega

theorem braceBalance_of_braceless (text : List Char) (places : List Nat)
    (clean : ∀ place ∈ places, ∀ c, text[place]? = some c → isBrace c = false) :
    braceBalance text places = 0 := by
  have absent (c : Char) (braced : isBrace c = true) :
      places.countP (text[·]? = some c) = 0 := by
    rw [List.countP_eq_zero]
    intro place member here
    have noBrace := clean place member c (of_decide_eq_true here)
    rw [braced] at noBrace
    cases noBrace
  rw [braceBalance, absent _ rfl, absent _ rfl]
  rfl

theorem braceBalance_filter (text : List Char) (places : List Nat) (p : Nat → Bool) :
    braceBalance text places =
      braceBalance text (places.filter p) + braceBalance text (places.filter (!p ·)) := by
  have opened := @List.countP_eq_countP_filter_add _ places (text[·]? = some '\x7b') p
  have closed := @List.countP_eq_countP_filter_add _ places (text[·]? = some '\x7d') p
  simp only [braceBalance]
  omega

namespace Token

/-- The place lies in a token that holds a piece of the text as it is. -/
def hides (token : Token) (place : Nat) : Bool :=
  token.kind.isVerbatim && token.idx ≤ place && place < token.stop

def reach (start : Nat) (tokens : List Token) : Nat :=
  (tokens.getLast?.map stop).getD start

/-- The places from `start` to the end of the tokens that no verbatim token holds. -/
def openPlaces (start : Nat) (tokens : List Token) : List Nat :=
  (Text.places start (reach start tokens)).filter fun place =>
    tokens.all fun token => !token.hides place

theorem reach_cons (start : Nat) (token : Token) (later : List Token) :
    reach start (token :: later) = reach token.stop later := by
  cases later with
  | nil => rfl
  | cons next later => simp [reach, List.getLast?_cons]

theorem Tile.start_le {text : List Char} {tokens : List Token} {start stop : Nat}
    (tile : Tile text start tokens stop) : ∀ token ∈ tokens, start ≤ token.idx := by
  induction tokens generalizing start with
  | nil =>
      intro token member
      cases member
  | cons head later ih =>
      intro token member
      obtain ⟨first, -, covers, rest⟩ := tile
      rcases List.mem_cons.mp member with rfl | member
      · exact first
      · have behind := ih rest token member
        have proper := covers.starts
        omega

theorem Tile.start_le_reach {text : List Char} {tokens : List Token} {start stop : Nat}
    (tile : Tile text start tokens stop) : start ≤ reach start tokens := by
  induction tokens generalizing start with
  | nil => exact Nat.le_refl start
  | cons token later ih =>
      obtain ⟨first, -, covers, rest⟩ := tile
      have behind := ih rest
      have proper := covers.starts
      rw [reach_cons]
      omega

theorem tile_nil (text : List Char) (start : Nat) : Tile text start [] start := by
  simp [Tile, List.extract]

theorem Tile.take {text : List Char} {tokens : List Token} {start stop : Nat}
    (tile : Tile text start tokens stop) (count : Nat) :
    Tile text start (tokens.take count) (reach start (tokens.take count)) := by
  induction tokens generalizing start count with
  | nil =>
      rw [List.take_nil]
      exact tile_nil text start
  | cons token later ih =>
      cases count with
      | zero => exact tile_nil text start
      | succ count =>
          obtain ⟨first, gap, covers, rest⟩ := tile
          rw [List.take_succ_cons, reach_cons]
          exact ⟨first, gap, covers, ih rest count⟩

theorem hides_of_lt (token : Token) (place : Nat) (before : place < token.idx) :
    token.hides place = false := by
  have outside : ¬token.idx ≤ place := by omega
  simp [hides, outside]

/-- The places up to the end of a tiling lie before the first token, in it, or behind it. -/
theorem Tile.openPlaces_cons {text : List Char} {token : Token} {later : List Token}
    {start stop : Nat} (tile : Tile text start (token :: later) stop) :
    openPlaces start (token :: later) =
      Text.places start token.idx ++
        ((if token.kind.isVerbatim then [] else Text.places token.idx token.stop) ++
          openPlaces token.stop later) := by
  obtain ⟨first, -, covers, rest⟩ := tile
  have proper := covers.starts
  have behind := rest.start_le_reach
  have clear (place : Nat) (before : place < token.stop) :
      (later.all fun next => !next.hides place) = true := by
    rw [List.all_eq_true]
    intro next member
    have starts := rest.start_le next member
    rw [hides_of_lt next place (by omega)]
    rfl
  rw [openPlaces, reach_cons, Text.places_append start token.idx _ first (by omega),
    Text.places_append token.idx token.stop _ (by omega) behind, List.filter_append,
    List.filter_append]
  congr 1
  · rw [List.filter_eq_self]
    intro place member
    have bounds := (Text.mem_places _ _ _).mp member
    rw [List.all_cons, hides_of_lt token place bounds.2, clear place (by omega)]
    rfl
  · congr 1
    · split
      · rename_i verbatim
        rw [List.filter_eq_nil_iff]
        intro place member
        have bounds := (Text.mem_places _ _ _).mp member
        simp [hides, verbatim, bounds]
      · rename_i other
        rw [List.filter_eq_self]
        intro place member
        have bounds := (Text.mem_places _ _ _).mp member
        rw [List.all_cons, clear place bounds.2]
        simp [hides, other]
    · rw [openPlaces]
      apply List.filter_congr
      intro place member
      have bounds := (Text.mem_places _ _ _).mp member
      have outside : ¬place < token.stop := by omega
      simp [hides, outside]

end Token

namespace Scanner

variable {s stop : Scanner} {text : List Char} {tokens : List Token} {lexeme : Lexeme}

theorem StandsIn.getElem?_add (stands : s.StandsIn text) (count : Nat) :
    text[s.idx + count]? = s.rest[count]? := by
  rw [← stands.drop_idx, List.getElem?_drop]

/-- The neighbours of a place are the last character behind it and the second one ahead. -/
theorem StandsIn.isQuoted_idx (stands : s.StandsIn text) {c : Char} {rest : List Char}
    (ahead : s.rest = c :: rest) :
    Text.isQuoted text s.idx =
      (s.before.head? = some '\'' || rest.head? = some '\'' : Bool) := by
  have next : text[s.idx + 1]? = rest.head? := by
    rw [stands.getElem?_add, ahead, List.getElem?_cons_succ, List.head?_eq_getElem?]
  cases behind : s.before with
  | nil =>
      have start : s.idx = 0 := by rw [stands.idx, behind, List.length_nil]
      rw [Text.isQuoted, next, start]
      simp
  | cons last earlier =>
      have place : s.idx = earlier.length + 1 := by rw [stands.idx, behind, List.length_cons]
      have previous : text[s.idx - 1]? = some last := by
        rw [← stands.whole, Scanner.text, behind, place]
        simp
      rw [Text.isQuoted, next, previous, place]
      simp

/-- No brace stands at the places of a front part that holds none. -/
theorem StandsIn.braceless_places (stands : s.StandsIn text) (front : List Char)
    (inside : front <+: s.rest) (clean : Lexeme.Braceless front) :
    ∀ place ∈ Text.places s.idx (s.idx + front.length),
      ∀ c, text[place]? = some c → isBrace c = false := by
  intro place member c here
  have bounds := (Text.mem_places _ _ _).mp member
  obtain ⟨count, rfl⟩ := Nat.exists_eq_add_of_le bounds.1
  have within : count < front.length := by omega
  obtain ⟨further, rest⟩ := inside
  rw [stands.getElem?_add, ← rest, List.getElem?_append_left within] at here
  exact clean c (List.mem_of_getElem? here)

/-- A lexeme is verbatim, or holds no brace, or is a brace. -/
theorem StandsIn.found_cases (stands : s.StandsIn text)
    (found : Lexeme.find? s.lineStart s.before.head? s.rest = some lexeme) :
    lexeme.kind.isVerbatim = true ∨
      (lexeme.kind.isVerbatim = false ∧ blockBalance [lexeme.kind] = 0 ∧
        Lexeme.Braceless (lexeme.kind.opening ++ lexeme.text)) ∨
      ∃ c rest, s.rest = c :: rest ∧ isBrace c = true ∧
        lexeme = ⟨braceKind c (Text.isQuoted text s.idx), 0, [c]⟩ := by
  have fits := Lexeme.find?_fits found
  cases ahead : s.rest with
  | nil =>
      have inside := fits.extent_le
      have positive := fits.extent_pos
      rw [ahead, List.length_nil] at inside
      omega
  | cons c rest =>
      rw [ahead] at found
      by_cases braced : isBrace c = true
      · have single := Lexeme.find?_of_brace s.lineStart s.before.head? c rest braced
        rw [found, ← stands.isQuoted_idx ahead] at single
        exact .inr (.inr ⟨c, rest, rfl, braced, Option.some.inj single⟩)
      · by_cases verbatim : lexeme.kind.isVerbatim = true
        · exact .inl verbatim
        · have clean := Lexeme.find?_away found (Bool.of_not_eq_true braced)
            (Bool.of_not_eq_true verbatim)
          exact .inr (.inl ⟨Bool.of_not_eq_true verbatim, clean.2, clean.1⟩)

/-- The places of a lexeme count as its token does. -/
theorem StandsIn.lexeme_balance (stands : s.StandsIn text)
    (found : Lexeme.find? s.lineStart s.before.head? s.rest = some lexeme) :
    braceBalance text
        ((if lexeme.kind.isVerbatim then [] else Text.places s.idx (s.idx + lexeme.extent)).filter
          (!Text.isQuoted text ·)) =
      blockBalance [lexeme.kind] := by
  have fits := Lexeme.find?_fits found
  rcases stands.found_cases found with
    verbatim | ⟨other, noBlock, clean⟩ | ⟨c, rest, ahead, braced, rfl⟩
  · rw [if_pos verbatim, Lexeme.isVerbatim_noBlock _ verbatim]
    rfl
  · rw [other, noBlock]
    apply braceBalance_of_braceless
    intro place member
    rw [fits.extent_eq] at member
    exact stands.braceless_places _ fits.front clean place (List.mem_filter.mp member).1
  · have here : text[s.idx]? = some c := by
      have first := stands.getElem?_add 0
      rwa [ahead] at first
    have single : Text.places s.idx (s.idx + 1) = [s.idx] := by simp [Text.places]
    rcases (isBrace_iff c).mp braced with rfl | rfl <;>
      cases quoted : Text.isQuoted text s.idx <;>
      simp [braceKind, Token.Kind.isVerbatim, Lexeme.extent, single, quoted, here, braceBalance,
        blockBalance]

/-- A brace that a lexeme covers, unless it is verbatim, is the whole lexeme. -/
theorem StandsIn.lexeme_brace (stands : s.StandsIn text)
    (found : Lexeme.find? s.lineStart s.before.head? s.rest = some lexeme) :
    ∀ place ∈ if lexeme.kind.isVerbatim then [] else Text.places s.idx (s.idx + lexeme.extent),
      ∀ c, text[place]? = some c → isBrace c = true →
        s.idx = place ∧ String.ofList lexeme.text = String.ofList [c] ∧
          lexeme.kind = braceKind c (Text.isQuoted text place) := by
  intro place member c present braced
  have fits := Lexeme.find?_fits found
  rcases stands.found_cases found with verbatim | ⟨other, -, clean⟩ | ⟨d, rest, ahead, -, rfl⟩
  · rw [if_pos verbatim] at member
    cases member
  · rw [if_neg (by rw [other]; decide), fits.extent_eq] at member
    have noBrace := stands.braceless_places _ fits.front clean place member c present
    rw [braced] at noBrace
    cases noBrace
  · have only : s.idx = place := by
      split at member
      · cases member
      · have bounds := (Text.mem_places _ _ _).mp member
        simp only [Lexeme.extent, List.length_singleton] at bounds
        omega
    subst only
    have first := stands.getElem?_add 0
    rw [ahead, Nat.add_zero, present] at first
    obtain rfl : c = d := Option.some.inj first
    exact ⟨rfl, rfl, rfl⟩

theorem StandsIn.gap_braceless (stands : s.StandsIn text) :
    ∀ place ∈ Text.places s.idx s.skipBlanks.idx,
      ∀ c, text[place]? = some c → isBrace c = false := by
  rw [skipBlanks_idx]
  apply stands.braceless_places _ (List.takeWhile_prefix _)
  exact Lexeme.braceless_takeWhile Text.isBlank (by decide) (by decide) s.rest

/-- The places read with one more token: white space, the token itself, and what follows. -/
theorem openPlaces_next (stands : s.StandsIn text)
    (found : Lexeme.find? s.skipBlanks.lineStart s.skipBlanks.before.head? s.skipBlanks.rest =
      some lexeme)
    (later : Reads (s.skipBlanks.forward lexeme.extent) tokens stop) (count : Nat) :
    Token.openPlaces s.idx
        (s.skipBlanks.token lexeme.kind (String.ofList lexeme.text) :: tokens.take count) =
      Text.places s.idx s.skipBlanks.idx ++
        ((if lexeme.kind.isVerbatim then []
          else Text.places s.skipBlanks.idx (s.skipBlanks.idx + lexeme.extent)) ++
          Token.openPlaces (s.skipBlanks.forward lexeme.extent).idx (tokens.take count)) := by
  have fits := Lexeme.find?_fits found
  have tile := ((Reads.next found later).tile stands).take (count + 1)
  rw [List.take_succ_cons] at tile
  rw [tile.openPlaces_cons, token_stop _ fits]
  rfl

theorem openPlaces_nil (start : Nat) : Token.openPlaces start [] = [] := by
  simp [Token.openPlaces, Token.reach, Text.places]

theorem Reads.blockBalance_take (reads : Reads s tokens stop) (stands : s.StandsIn text)
    (count : Nat) :
    blockBalance ((tokens.take count).map Token.kind) =
      braceBalance text
        ((Token.openPlaces s.idx (tokens.take count)).filter (!Text.isQuoted text ·)) := by
  induction reads generalizing count with
  | done =>
      rw [List.take_nil, openPlaces_nil]
      rfl
  | @next s stop lexeme tokens found later ih =>
      cases count with
      | zero =>
          rw [List.take_zero, openPlaces_nil]
          rfl
      | succ count =>
          have here := stands.skipBlanks
          have gap : braceBalance text
              ((Text.places s.idx s.skipBlanks.idx).filter (!Text.isQuoted text ·)) = 0 := by
            apply braceBalance_of_braceless
            intro place member
            exact stands.gap_braceless place (List.mem_filter.mp member).1
          have own := here.lexeme_balance found
          have rest := ih (here.forward _ (Lexeme.find?_fits found).extent_le) count
          rw [List.take_succ_cons, List.map_cons, blockBalance_cons, rest,
            openPlaces_next stands found later, List.filter_append, List.filter_append,
            braceBalance_append, braceBalance_append, gap, own, Int.zero_add]
          rfl

/-- Every brace outside verbatim tokens is a token of its own. -/
theorem Reads.brace_token (reads : Reads s tokens stop) (stands : s.StandsIn text)
    (count : Nat) :
    ∀ place ∈ Token.openPlaces s.idx (tokens.take count),
      ∀ c, text[place]? = some c → isBrace c = true →
        ∃ token ∈ tokens.take count, token.idx = place ∧ token.value = String.ofList [c] ∧
          token.kind = braceKind c (Text.isQuoted text place) := by
  induction reads generalizing count with
  | done =>
      intro place member
      rw [List.take_nil, openPlaces_nil] at member
      cases member
  | @next s stop lexeme tokens found later ih =>
      intro place member c present braced
      cases count with
      | zero =>
          rw [List.take_zero, openPlaces_nil] at member
          cases member
      | succ count =>
          have here := stands.skipBlanks
          have fits := Lexeme.find?_fits found
          rw [List.take_succ_cons, openPlaces_next stands found later, List.mem_append,
            List.mem_append] at member
          rw [List.take_succ_cons]
          rcases member with inGap | inToken | behind
          · have clean := stands.gap_braceless place inGap c present
            rw [braced] at clean
            cases clean
          · refine ⟨_, List.mem_cons_self, ?_⟩
            exact here.lexeme_brace found place inToken c present braced
          · obtain ⟨token, member, facts⟩ :=
              ih (here.forward _ fits.extent_le) count place behind c present braced
            exact ⟨token, List.mem_cons_of_mem _ member, facts⟩

/-- The blocks that are open behind the first tokens of a text are the braces outside verbatim
tokens that have no apostrophe beside them. All braces outside verbatim tokens count, as far as
those beside an apostrophe match among themselves; these become single characters. -/
theorem blockBalance_scan (text : String) (count : Nat) :
    let source := joinContinued text.toList
    let read := (ofText text).scan.tokens.take count
    let outside := Token.openPlaces 0 read
    blockBalance (read.map Token.kind) =
        braceBalance source (outside.filter (!Text.isQuoted source ·)) ∧
      (blockBalance (read.map Token.kind) = braceBalance source outside ↔
        braceBalance source (outside.filter (Text.isQuoted source)) = 0) ∧
      ∀ place ∈ outside, ∀ c, source[place]? = some c → isBrace c = true →
        ∃ token ∈ read, token.idx = place ∧ token.value = String.ofList [c] ∧
          token.kind = braceKind c (Text.isQuoted source place) := by
  intro source read outside
  have stands := standsIn_ofText text
  have reads := (scan_reads stands).2
  have balance : blockBalance (read.map Token.kind) =
      braceBalance source (outside.filter (!Text.isQuoted source ·)) :=
    reads.blockBalance_take stands count
  have parts := braceBalance_filter source outside (Text.isQuoted source)
  refine ⟨balance, ?_, reads.brace_token stands count⟩
  rw [balance, parts]
  omega

/-- A brace before a string in apostrophes opens no block, but the brace that closes it closes
one. -/
theorem blockBalance_scan_quoted :
    let text := "Item \x7b\n    property var sizes: \x7b'a': 1\x7d\n\x7d"
    let read := (ofText text).scan.tokens
    blockBalance (read.map Token.kind) = -1 ∧
      braceBalance (joinContinued text.toList) (Token.openPlaces 0 read) = 0 := by
  decide +kernel

end Scanner

end QmlDoc
