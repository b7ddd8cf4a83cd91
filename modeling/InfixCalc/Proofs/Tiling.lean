import InfixCalc.Proofs.Lexicon
import Mathlib.Data.List.Chain

/-!
# Tiling by longest match

The lexemes of a text lie side by side and cover it.  Each of them is the
longest piece at its place that has a pattern, or a single character where no
piece has one.

`Tiles` follows the scan: a front by longest match, then the tiles of what is
left.  The facts about all lexemes of a text are read off it by induction.

* `Lexeme.munched_front` : the first lexeme is what longest match finds.
* `Lexeme.tiles_scanFrom` : the scan tiles a text from any byte on.
* `Lexeme.eq_scanFrom_of_tiles` : nothing else does.
* `Lexeme.scanFrom_append` : a lexeme starts before whatever is no digit.
* `Lexeme.scan_tiling` : the places, the pieces and the tokens of all lexemes.
-/

namespace InfixCalc

@[simp] theorem Text.byteLength_append
    (first second : Text) :
    byteLength (first ++ second) = byteLength first + byteLength second := by
  induction first with
  | nil =>
      rw [List.nil_append, byteLength, Nat.zero_add]
  | cons c first ih =>
      rw [List.cons_append, byteLength, byteLength, ih, Nat.add_assoc]

theorem Text.byteLength_pos
    {text : Text}
    (hne : text ≠ []) :
    0 < byteLength text := by
  cases text with
  | nil =>
      exact absurd rfl hne
  | cons c rest =>
      exact Nat.add_pos_left (Char.utf8Size_pos c) _

namespace Lexeme

/-- The piece is the longest one with a pattern at the front of the text. -/
structure Longest (piece text : Text) : Prop where
  leads : piece <+: text
  pattern : Matches piece
  longest : ∀ other, other <+: text → Matches other → other.length ≤ piece.length

/-- What longest match finds at the front of a text: a piece, and its token if
it has one. -/
inductive Munched (text : Text) : Text → Option Token → Prop where
  | symbol {piece : Text} {token : Token}
      (longest : Longest piece text)
      (reads : Symbol piece token) :
      Munched text piece (some token)
  | number {piece : Text} {value : Int}
      (longest : Longest piece text)
      (reads : Text.Numeral piece value)
      (range : Value.InRange value) :
      Munched text piece (some (.number (Int64.ofInt value)))
  | outOfRange {piece : Text} {value : Int}
      (longest : Longest piece text)
      (reads : Text.Numeral piece value)
      (range : ¬Value.InRange value) :
      Munched text piece none
  | stray {c : Char} {rest : Text}
      (begins : text = c :: rest)
      (unmatched : ∀ piece, piece <+: text → ¬Matches piece) :
      Munched text [c] none

theorem Munched.nonempty
    {text piece : Text} {token? : Option Token}
    (hmunched : Munched text piece token?) :
    piece ≠ [] := by
  have hpattern : Longest piece text → piece ≠ [] := by
    rintro hlongest rfl
    exact not_matches_nil hlongest.pattern
  cases hmunched with
  | symbol longest _ =>
      exact hpattern longest
  | number longest _ _ =>
      exact hpattern longest
  | outOfRange longest _ _ =>
      exact hpattern longest
  | stray _ _ =>
      exact List.cons_ne_nil _ _

/-- The first lexeme is what longest match finds. -/
theorem munched_front
    (c : Char) (rest : Text) :
    Munched (c :: rest) (c :: tailOf c rest) (tokenOf? (c :: tailOf c rest)) := by
  have hleads : c :: tailOf c rest <+: c :: rest :=
    List.cons_prefix_cons.mpr ⟨rfl, tailOf_leads c rest⟩
  by_cases hstarts : Starts c
  · have hpattern : Matches (c :: tailOf c rest) := matches_front hstarts rest
    have hlongest : Longest (c :: tailOf c rest) (c :: rest) :=
      ⟨hleads, hpattern, fun _ hother hmatches => (prefix_of_matches hmatches hother).length_le⟩
    rcases hpattern with ⟨token, hsymbol⟩ | ⟨value, hnumeral⟩
    · rw [tokenOf?_of_symbol hsymbol]
      exact .symbol hlongest hsymbol
    · rw [tokenOf?_of_numeral hnumeral]
      by_cases hrange : Value.InRange value
      · rw [Value.ofInt?_of_inRange hrange]
        exact .number hlongest hnumeral hrange
      · rw [Value.ofInt?_of_not_inRange hrange]
        exact .outOfRange hlongest hnumeral hrange
  · have hunmatched : ∀ piece, piece <+: c :: rest → ¬Matches piece := by
      intro piece hpiece hmatches
      cases piece with
      | nil =>
          exact not_matches_nil hmatches
      | cons d more =>
          obtain ⟨rfl, -⟩ := List.cons_prefix_cons.mp hpiece
          exact hstarts (starts_of_matches hmatches)
    rw [tokenOf?_of_not_matches (hunmatched _ hleads), tailOf_of_not_starts hstarts]
    exact .stray rfl hunmatched

theorem Longest.eq_front
    {c : Char} {rest piece : Text}
    (hlongest : Longest piece (c :: rest)) :
    piece = c :: tailOf c rest := by
  have hshort : piece <+: c :: tailOf c rest :=
    prefix_of_matches hlongest.pattern hlongest.leads
  have hstarts : Starts c := by
    cases piece with
    | nil =>
        exact absurd hlongest.pattern not_matches_nil
    | cons d more =>
        obtain ⟨rfl, -⟩ := List.cons_prefix_cons.mp hshort
        exact starts_of_matches hlongest.pattern
  have hleads : c :: tailOf c rest <+: c :: rest :=
    List.cons_prefix_cons.mpr ⟨rfl, tailOf_leads c rest⟩
  exact hshort.eq_of_length_le (hlongest.longest _ hleads (matches_front hstarts rest))

/-- Longest match leaves no choice. -/
theorem Munched.eq_front
    {c : Char} {rest piece : Text} {token? : Option Token}
    (hmunched : Munched (c :: rest) piece token?) :
    piece = c :: tailOf c rest ∧ token? = tokenOf? piece := by
  cases hmunched with
  | symbol longest reads =>
      exact ⟨longest.eq_front, (tokenOf?_of_symbol reads).symm⟩
  | number longest reads range =>
      refine ⟨longest.eq_front, ?_⟩
      rw [tokenOf?_of_numeral reads, Value.ofInt?_of_inRange range, Option.map_some]
  | outOfRange longest reads range =>
      refine ⟨longest.eq_front, ?_⟩
      rw [tokenOf?_of_numeral reads, Value.ofInt?_of_not_inRange range, Option.map_none]
  | stray begins unmatched =>
      cases begins
      have hlone : ¬Matches [c] := unmatched [c] (List.prefix_append [c] rest)
      have hstarts : ¬Starts c := fun hstarts =>
        unmatched _ (List.cons_prefix_cons.mpr ⟨rfl, tailOf_leads c rest⟩)
          (matches_front hstarts rest)
      rw [tailOf_of_not_starts hstarts]
      exact ⟨rfl, (tokenOf?_of_not_matches hlone).symm⟩

/-- Lexemes that follow each other from a byte on, each found by longest match
in what is left of the text. -/
inductive Tiles : Nat → Text → List Lexeme → Prop where
  | done (start : Nat) :
      Tiles start [] []
  | front {start : Nat} {piece rest : Text} {token? : Option Token} {later : List Lexeme}
      (munched : Munched (piece ++ rest) piece token?)
      (tiles : Tiles (start + Text.byteLength piece) rest later) :
      Tiles start (piece ++ rest) (⟨piece, start, token?⟩ :: later)

@[simp] theorem scanFrom_nil
    (start : Nat) :
    scanFrom start [] = [] := by
  rw [scanFrom]

theorem scanFrom_cons
    (start : Nat) (c : Char) (rest : Text) :
    scanFrom start (c :: rest) =
      ⟨c :: tailOf c rest, start, tokenOf? (c :: tailOf c rest)⟩ ::
        scanFrom (start + Text.byteLength (c :: tailOf c rest))
          (rest.drop (tailOf c rest).length) := by
  rw [scanFrom]

/-- The scan tiles a text from any byte on. -/
theorem tiles_scanFrom
    (start : Nat) (text : Text) :
    Tiles start text (scanFrom start text) := by
  induction start, text using scanFrom.induct with
  | case1 start =>
      rw [scanFrom_nil]
      exact .done start
  | case2 start c rest piece ih =>
      have hrest : (c :: tailOf c rest) ++ rest.drop (tailOf c rest).length = c :: rest :=
        congrArg (c :: ·) (tailOf_append_drop c rest)
      have hfront := munched_front c rest
      rw [← hrest] at hfront
      rw [scanFrom_cons]
      exact hrest ▸ Tiles.front hfront ih

/-- The scan is the only way to tile a text by longest match. -/
theorem eq_scanFrom_of_tiles
    {start : Nat} {text : Text} {lexemes : List Lexeme}
    (htiles : Tiles start text lexemes) :
    lexemes = scanFrom start text := by
  induction htiles with
  | done start =>
      rw [scanFrom_nil]
  | @front start piece rest token? later hmunched _ ih =>
      obtain ⟨c, more, rfl⟩ := List.exists_cons_of_ne_nil hmunched.nonempty
      obtain ⟨hpiece, htoken⟩ := hmunched.eq_front
      have hmore : more = tailOf c (more ++ rest) := (List.cons.inj hpiece).2
      rw [List.cons_append, scanFrom_cons, ← hmore, List.drop_left, htoken, ih]

namespace Tiles

variable {start : Nat} {text : Text} {lexemes : List Lexeme}

theorem flatten_eq
    (htiles : Tiles start text lexemes) :
    (lexemes.map Lexeme.text).flatten = text := by
  induction htiles with
  | done start =>
      rfl
  | front _ _ ih =>
      rw [List.map_cons, List.flatten_cons, ih]

theorem start_eq
    (htiles : Tiles start text lexemes) :
    ∀ lexeme ∈ lexemes.head?, lexeme.start = start := by
  cases htiles with
  | done =>
      rintro lexeme ⟨⟩
  | front =>
      rintro lexeme ⟨⟩
      rfl

theorem contiguous
    (htiles : Tiles start text lexemes) :
    lexemes.IsChain fun lexeme next => next.start = lexeme.stop := by
  induction htiles with
  | done =>
      exact .nil
  | front _ htiles ih =>
      exact List.isChain_cons.mpr ⟨htiles.start_eq, ih⟩

theorem stop_eq
    (htiles : Tiles start text lexemes) :
    ∀ lexeme ∈ lexemes.getLast?, lexeme.stop = start + Text.byteLength text := by
  induction htiles with
  | done =>
      rintro lexeme ⟨⟩
  | @front start piece rest token? later _ htiles ih =>
      intro lexeme hlast
      rw [Text.byteLength_append, ← Nat.add_assoc]
      cases later with
      | nil =>
          cases hlast
          rw [← htiles.flatten_eq]
          rfl
      | cons next later =>
          exact ih lexeme (by rwa [List.getLast?_cons_cons] at hlast)

/-- Every lexeme is what longest match finds behind the lexemes before it. -/
theorem munched_of_mem
    (htiles : Tiles start text lexemes) :
    ∀ lexeme ∈ lexemes, ∃ before rest,
      text = before ++ lexeme.text ++ rest ∧
      lexeme.start = start + Text.byteLength before ∧
      Munched (lexeme.text ++ rest) lexeme.text lexeme.token? := by
  induction htiles with
  | done =>
      rintro lexeme ⟨⟩
  | @front start piece rest token? later hmunched _ ih =>
      intro lexeme hmem
      rcases List.mem_cons.mp hmem with rfl | hmem
      · exact ⟨[], rest, rfl, rfl, hmunched⟩
      · obtain ⟨before, after, hrest, hstart, hlexeme⟩ := ih lexeme hmem
        refine ⟨piece ++ before, after, ?_, ?_, hlexeme⟩
        · rw [hrest, List.append_assoc, List.append_assoc, List.append_assoc]
        · rw [hstart, Text.byteLength_append, Nat.add_assoc]

end Tiles

theorem tailOf_append
    {c : Char}
    (hc : c.isDigit = false)
    (d : Char) (before after : Text) :
    tailOf d (before ++ c :: after) = tailOf d before := by
  have htake : (before ++ c :: after).takeWhile Char.isDigit = before.takeWhile Char.isDigit := by
    induction before with
    | nil =>
        exact List.takeWhile_cons_of_neg (by simp [hc])
    | cons e before ih =>
        by_cases he : e.isDigit = true
        · rw [List.cons_append, List.takeWhile_cons_of_pos he, List.takeWhile_cons_of_pos he, ih]
        · rw [List.cons_append, List.takeWhile_cons_of_neg he, List.takeWhile_cons_of_neg he]
  rw [tailOf, htake, tailOf]

/-- A lexeme starts before whatever is no digit. -/
theorem scanFrom_append
    {c : Char}
    (hc : c.isDigit = false)
    (start : Nat) (before after : Text) :
    scanFrom start (before ++ c :: after) =
      scanFrom start before ++ scanFrom (start + Text.byteLength before) (c :: after) := by
  induction start, before using scanFrom.induct with
  | case1 start =>
      rw [List.nil_append, scanFrom_nil, List.nil_append]
      rfl
  | case2 start d before piece ih =>
      have hlength : (tailOf d before).length ≤ before.length := (tailOf_leads d before).length_le
      have hbytes : Text.byteLength piece +
          Text.byteLength (before.drop (tailOf d before).length) =
            Text.byteLength (d :: before) := by
        rw [← Text.byteLength_append]
        exact congrArg (fun rest => Text.byteLength (d :: rest)) (tailOf_append_drop d before)
      rw [List.cons_append, scanFrom_cons, tailOf_append hc,
        List.drop_append_of_le_length hlength, ih, scanFrom_cons start d before,
        List.cons_append, Nat.add_assoc, hbytes]

/-- A minus directly before a digit belongs to a numeral. -/
theorem exists_numeral_of_minus
    {d : Char}
    (hdigit : d.isDigit = true)
    (start : Nat) (before rest : Text) :
    ∃ lexeme ∈ scanFrom start (before ++ '-' :: d :: rest),
      lexeme.start = start + Text.byteLength before ∧
      ['-', d] <+: lexeme.text ∧
      ∃ value, Text.Numeral lexeme.text value := by
  have htail : tailOf '-' (d :: rest) = d :: rest.takeWhile Char.isDigit :=
    List.takeWhile_cons_of_pos hdigit
  have hnumeral : ∃ value, Text.Numeral ('-' :: tailOf '-' (d :: rest)) value := by
    refine numeral_cons_iff.mpr ⟨Or.inr ⟨rfl, ?_⟩, fun e he => isDigit_of_mem_tailOf he⟩
    rw [htail]
    exact List.cons_ne_nil _ _
  rw [scanFrom_append (by decide), scanFrom_cons]
  refine ⟨_, List.mem_append_right _ List.mem_cons_self, rfl, ?_, hnumeral⟩
  rw [htail]
  exact List.prefix_append ['-', d] _

/-- The lexemes lie side by side, cover the text and are found by longest
match. -/
structure Tiling (text : Text) (lexemes : List Lexeme) : Prop where
  /-- The pieces together are the text. -/
  covers : (lexemes.map Lexeme.text).flatten = text
  /-- The first lexeme starts at the first byte. -/
  first : ∀ lexeme ∈ lexemes.head?, lexeme.start = 0
  /-- Each lexeme but the first starts where the one before it stops. -/
  contiguous : lexemes.IsChain fun lexeme next => next.start = lexeme.stop
  /-- The last lexeme stops at the last byte. -/
  last : ∀ lexeme ∈ lexemes.getLast?, lexeme.stop = Text.byteLength text
  /-- No lexeme is empty. -/
  nonempty : ∀ lexeme ∈ lexemes, lexeme.start < lexeme.stop
  /-- A lexeme lies between two characters, and is what longest match finds
  there. -/
  munched : ∀ lexeme ∈ lexemes, ∃ before rest,
    text = before ++ lexeme.text ++ rest ∧
    lexeme.start = Text.byteLength before ∧
    lexeme.stop = Text.byteLength (before ++ lexeme.text) ∧
    Munched (lexeme.text ++ rest) lexeme.text lexeme.token?
  /-- A minus directly before a digit is the first character of a numeral that
  goes on with the digit. -/
  minus : ∀ before d rest, text = before ++ '-' :: d :: rest → d.isDigit = true →
    ∃ lexeme ∈ lexemes,
      lexeme.start = Text.byteLength before ∧
      ['-', d] <+: lexeme.text ∧
      ∃ value, Text.Numeral lexeme.text value

/-- The lexemes of a text tile it by longest match. -/
theorem scan_tiling
    (text : Text) :
    Tiling text (scan text) := by
  have htiles : Tiles 0 text (scan text) := tiles_scanFrom 0 text
  have hmunched := htiles.munched_of_mem
  refine ⟨htiles.flatten_eq, htiles.start_eq, htiles.contiguous, ?_, ?_, ?_, ?_⟩
  · intro lexeme hlast
    rw [htiles.stop_eq lexeme hlast, Nat.zero_add]
  · intro lexeme hmem
    obtain ⟨before, rest, -, -, hlexeme⟩ := hmunched lexeme hmem
    exact Nat.lt_add_of_pos_right (Text.byteLength_pos hlexeme.nonempty)
  · intro lexeme hmem
    obtain ⟨before, rest, htext, hstart, hlexeme⟩ := hmunched lexeme hmem
    rw [Nat.zero_add] at hstart
    refine ⟨before, rest, htext, hstart, ?_, hlexeme⟩
    rw [stop, hstart, Text.byteLength_append]
  · rintro before d rest rfl hdigit
    obtain ⟨lexeme, hmem, hstart, hlexeme⟩ := exists_numeral_of_minus hdigit 0 before rest
    rw [Nat.zero_add] at hstart
    exact ⟨lexeme, hmem, hstart, hlexeme⟩

/-- The second minus belongs to the numeral, and `é` has two bytes. -/
example :
    (scan "7--2é".toList).map (fun lexeme => (lexeme.start, lexeme.stop, lexeme.token?)) =
      [(0, 1, some (.number 7)), (1, 2, some (.operator .minus)),
       (2, 4, some (.number (-2))), (4, 6, none)] := by
  cbv

end Lexeme
end InfixCalc
