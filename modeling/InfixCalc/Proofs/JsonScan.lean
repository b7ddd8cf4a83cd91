import InfixCalc.Proofs.JsonGrammar
import Mathlib.Data.List.TakeWhile

/-!
# The symbols of JSON texts

The scan finds the symbols of every text of the grammar.  Strings and
punctuation have an end of their own; a name or a number ends where something
follows that cannot continue it.

* `Symbol.Scans` : a text is scanned as some symbols, whatever follows.
* `Symbol.scans_string` : every text of a string is scanned as the string.
* `Symbol.scans_number` : every text of a number is scanned as the number.
-/

namespace InfixCalc
namespace Json
namespace Symbol

open Grammar

/-- What follows cannot continue a name or a number. -/
def Delimited (rest : Text) : Prop :=
  ∀ c later, rest = c :: later → continuesNumber c = false ∧ c.isLower = false

/-- The text is scanned as the symbols, whatever follows. -/
def Scans (text : Text) (symbols : List Symbol) : Prop :=
  ∀ rest, scanFrom? .between (text ++ rest) = (scanFrom? .between rest).map (symbols ++ ·)

/-- The text is scanned as the symbols, whatever follows that is delimited. -/
def ScansDelimited (text : Text) (symbols : List Symbol) : Prop :=
  ∀ rest,
    Delimited rest →
    scanFrom? .between (text ++ rest) = (scanFrom? .between rest).map (symbols ++ ·)

section Composition

variable {first second : Text} {symbols later : List Symbol}

theorem map_append_map
    (found : Option (List Symbol)) (symbols later : List Symbol) :
    (found.map (later ++ ·)).map (symbols ++ ·) = found.map (symbols ++ later ++ ·) := by
  rw [Option.map_map]
  congr 1
  funext rest
  exact (List.append_assoc symbols later rest).symm

theorem Scans.delimited
    (hscans : Scans first symbols) :
    ScansDelimited first symbols :=
  fun rest _ => hscans rest

theorem Scans.append
    (hfirst : Scans first symbols) (hsecond : Scans second later) :
    Scans (first ++ second) (symbols ++ later) := by
  intro rest
  rw [List.append_assoc, hfirst, hsecond, map_append_map]

theorem Scans.append_delimited
    (hfirst : Scans first symbols) (hsecond : ScansDelimited second later) :
    ScansDelimited (first ++ second) (symbols ++ later) := by
  intro rest hrest
  rw [List.append_assoc, hfirst, hsecond rest hrest, map_append_map]

/-- What stands behind a delimited text delimits it, unless that is empty. -/
theorem ScansDelimited.append
    (hfirst : ScansDelimited first symbols)
    (hdelimits : ∀ rest, Delimited rest → Delimited (second ++ rest))
    (hsecond : ScansDelimited second later) :
    ScansDelimited (first ++ second) (symbols ++ later) := by
  intro rest hrest
  rw [List.append_assoc, hfirst _ (hdelimits rest hrest), hsecond rest hrest, map_append_map]

theorem scans_nil :
    Scans [] [] := by
  intro rest
  simp

end Composition

section Steps

theorem scanFrom?_cons_of_step
    {mode next : Mode} {c : Char}
    (hstep : step? mode c = some ([], next))
    (rest : Text) :
    scanFrom? mode (c :: rest) = scanFrom? next rest := by
  rw [scanFrom?, hstep, Option.bind_some]
  simp

/-- A character that is a symbol of its own. -/
theorem scans_of_start
    {c : Char} {symbols : List Symbol}
    (hstart : start? c = some (symbols, .between)) :
    Scans [c] symbols := by
  intro rest
  rw [List.singleton_append, scanFrom?, step?, hstart, Option.bind_some]

theorem scans_space
    {space : Text}
    (hspace : Space space) :
    Scans space [] := by
  induction space with
  | nil =>
      exact scans_nil
  | cons c space ih =>
      have hc : start? c = some ([], .between) := by
        rcases hspace c List.mem_cons_self with rfl | rfl | rfl | rfl <;> rfl
      exact (scans_of_start hc).append (ih fun d hd => hspace d (List.mem_cons_of_mem c hd))

theorem delimited_nil :
    Delimited [] := by
  intro c later hcons
  cases hcons

theorem delimited_cons
    {c : Char}
    (hnumber : continuesNumber c = false) (hlower : c.isLower = false)
    (rest : Text) :
    Delimited (c :: rest) := by
  intro d later hcons
  cases hcons
  exact ⟨hnumber, hlower⟩

theorem delimited_space_append
    {space rest : Text}
    (hspace : Space space) (hrest : Delimited rest) :
    Delimited (space ++ rest) := by
  cases space with
  | nil =>
      exact hrest
  | cons c space =>
      rcases hspace c List.mem_cons_self with rfl | rfl | rfl | rfl <;>
        exact delimited_cons (by decide) (by decide) _

/-- A name or a number that is open is closed by what delimits it. -/
theorem scanFrom?_of_delimited
    {mode : Text → Mode} {rest : Text}
    (hmode : mode = .name ∨ mode = .number)
    (opened : Text) (hrest : Delimited rest) :
    scanFrom? (mode opened) rest =
      (finish? (mode opened)).bind fun closed =>
        (scanFrom? .between rest).map (closed ++ ·) := by
  cases rest with
  | nil =>
      rw [scanFrom?, scanFrom?]
      cases finish? (mode opened) with
      | none =>
          rfl
      | some closed =>
          simp [finish?]
  | cons c rest =>
      obtain ⟨hnumber, hlower⟩ := hrest c rest rfl
      have hstep : step? (mode opened) c = step?.closeAndStart (mode opened) c := by
        rcases hmode with rfl | rfl
        · rw [step?, if_neg (by simp [hlower])]
        · rw [step?, if_neg (by simp [hnumber])]
      rw [scanFrom?, hstep, step?.closeAndStart, scanFrom?]
      cases finish? (mode opened) with
      | none =>
          rfl
      | some closed =>
          rw [Option.bind_some, Option.bind_some, step?]
          cases start? c with
          | none =>
              rfl
          | some next =>
              rw [Option.map_some, Option.bind_some, Option.bind_some, map_append_map]

end Steps

section Strings

/-- The four digits of a code unit. -/
theorem scanFrom?_unit
    {unit : Nat} {digits : Text}
    (hunit : CodeUnit unit digits)
    (opened : Text) (high? : Option Nat) (rest : Text) :
    scanFrom? (.unit opened high? 0 0) (digits ++ rest) =
      (afterUnit? opened high? unit).bind fun next => scanFrom? next rest := by
  have hstep : ∀ (c : Char) (digit count value : Nat),
      hexValue? c = some digit →
      count ≠ 3 →
      step? (.unit opened high? count value) c =
        some ([], .unit opened high? (count + 1) (16 * value + digit)) := by
    intro c digit count value hdigit hcount
    rw [step?, hdigit, Option.bind_some, if_neg hcount]
  have hlast : ∀ (c : Char) (digit value : Nat),
      hexValue? c = some digit →
      scanFrom? (.unit opened high? 3 value) (c :: rest) =
        (afterUnit? opened high? (16 * value + digit)).bind fun next => scanFrom? next rest := by
    intro c digit value hdigit
    rw [scanFrom?, step?, hdigit, Option.bind_some, if_pos rfl, Option.bind_map]
    congr 1
    funext next
    simp
  cases hunit with
  | @mk first second third fourth a b c d hfirst hsecond hthird hfourth =>
      have hone : step? (.unit opened high? 0 0) first = some ([], .unit opened high? 1 a) := by
        rw [hstep first a 0 0 hfirst (by decide), Nat.mul_zero, Nat.zero_add, Nat.zero_add]
      rw [List.cons_append, scanFrom?_cons_of_step hone, List.cons_append,
        scanFrom?_cons_of_step (hstep second b 1 _ hsecond (by decide)), List.cons_append,
        scanFrom?_cons_of_step (hstep third c 2 _ hthird (by decide)), List.cons_append,
        List.nil_append]
      exact hlast fourth d _ hfourth

theorem afterUnit?_char
    (opened : Text) (c : Char) :
    afterUnit? opened none c.toNat = some (.string (c :: opened)) := by
  have hvalid : c.toNat < 0xD800 ∨ 0xDFFF < c.toNat ∧ c.toNat < 0x110000 := c.valid
  rw [afterUnit?, if_neg (by omega), if_neg (by omega), Char.ofNat_toNat]

theorem escaped?_of_mem_shortEscapes
    {letter c : Char}
    (hshort : (letter, c) ∈ shortEscapes) :
    escaped? letter = some c ∧ letter ≠ 'u' := by
  have hall : shortEscapes.all fun pair => escaped? pair.1 = some pair.2 ∧ pair.1 ≠ 'u' := by
    decide
  exact of_decide_eq_true (List.all_eq_true.mp hall (letter, c) hshort)

/-- Every text of a character adds it to the string that is open. -/
theorem scanFrom?_character
    {c : Char} {text : Text}
    (hcharacter : Character c text)
    (opened rest : Text) :
    scanFrom? (.string opened) (text ++ rest) = scanFrom? (.string (c :: opened)) rest := by
  have hbackslash : step? (.string opened) '\\' = some ([], .escape opened) := rfl
  have hunit : step? (.escape opened) 'u' = some ([], .unit opened none 0 0) := rfl
  cases hcharacter with
  | plain hquote hplain hcontrol =>
      refine scanFrom?_cons_of_step ?_ rest
      rw [step?, if_neg hquote, if_neg hplain, if_neg (by omega)]
  | @short letter _ hshort =>
      obtain ⟨hescaped, hletter⟩ := escaped?_of_mem_shortEscapes hshort
      rw [List.cons_append, scanFrom?_cons_of_step hbackslash]
      refine scanFrom?_cons_of_step ?_ rest
      rw [step?, if_neg hletter, hescaped, Option.map_some]
  | unit hdigits =>
      rw [List.cons_append, scanFrom?_cons_of_step hbackslash, List.cons_append,
        scanFrom?_cons_of_step hunit, scanFrom?_unit hdigits, afterUnit?_char, Option.bind_some]
  | @pair _ high low first second hfirst hsecond hhigh hhigh' hlow hlow' hvalue =>
      have hhalf : step? (.half opened high) '\\' = some ([], .halfEscape opened high) := rfl
      have hhalfUnit :
          step? (.halfEscape opened high) 'u' = some ([], .unit opened (some high) 0 0) := rfl
      rw [List.cons_append, scanFrom?_cons_of_step hbackslash, List.cons_append,
        scanFrom?_cons_of_step hunit, List.append_assoc, scanFrom?_unit hfirst, afterUnit?,
        if_pos ⟨hhigh, hhigh'⟩, Option.bind_some, List.cons_append,
        scanFrom?_cons_of_step hhalf, List.cons_append, scanFrom?_cons_of_step hhalfUnit,
        scanFrom?_unit hsecond, afterUnit?, if_pos ⟨hlow, hlow'⟩, Option.bind_some, ← hvalue,
        Char.ofNat_toNat]

theorem scanFrom?_characters
    {content text : Text}
    (hcharacters : Characters content text)
    (opened rest : Text) :
    scanFrom? (.string opened) (text ++ '"' :: rest) =
      (scanFrom? .between rest).map ([atom (.str (opened.reverse ++ content))] ++ ·) := by
  induction hcharacters generalizing opened with
  | nil =>
      have hquote :
          step? (.string opened) '"' = some ([atom (.str opened.reverse)], .between) := rfl
      rw [List.nil_append, scanFrom?, hquote, Option.bind_some, List.append_nil]
  | cons hcharacter _ ih =>
      rw [List.append_assoc, scanFrom?_character hcharacter, ih, List.reverse_cons,
        List.append_assoc, List.singleton_append]

/-- Every text of a string is scanned as the string. -/
theorem scans_string
    {content text : Text}
    (hcharacters : Characters content text) :
    Scans ('"' :: (text ++ ['"'])) [atom (.str content)] := by
  intro rest
  have hquote : step? .between '"' = some ([], .string []) := rfl
  rw [List.cons_append, scanFrom?_cons_of_step hquote, List.append_assoc, List.singleton_append,
    scanFrom?_characters hcharacters, List.reverse_nil, List.nil_append]

end Strings

section Atoms

/-- Names and numbers collect their characters. -/
theorem scanFrom?_collect
    {mode : Text → Mode} {text : Text}
    (hstep : ∀ opened, ∀ c ∈ text, step? (mode opened) c = some ([], mode (c :: opened)))
    (opened rest : Text) :
    scanFrom? (mode opened) (text ++ rest) = scanFrom? (mode (text.reverse ++ opened)) rest := by
  induction text generalizing opened with
  | nil =>
      rfl
  | cons c text ih =>
      have htext : ∀ opened, ∀ d ∈ text, step? (mode opened) d = some ([], mode (d :: opened)) := by
        intro opened d hd
        exact hstep opened d (List.mem_cons_of_mem c hd)
      rw [List.cons_append, scanFrom?_cons_of_step (hstep opened c List.mem_cons_self), ih htext,
        List.reverse_cons, List.append_assoc, List.singleton_append]

/-- A name or a number is scanned as the value it is closed with. -/
theorem scans_collected
    {mode : Text → Mode} {c : Char} {rest : Text} {value : Json}
    (hmode : mode = .name ∨ mode = .number)
    (hstart : start? c = some ([], mode [c]))
    (hstep : ∀ opened, ∀ d ∈ rest, step? (mode opened) d = some ([], mode (d :: opened)))
    (hfinish : ∀ opened, opened.reverse = c :: rest → finish? (mode opened) = some [atom value]) :
    ScansDelimited (c :: rest) [atom value] := by
  intro later hlater
  have hopened : (rest.reverse ++ [c]).reverse = c :: rest := by
    simp
  have hfirst : step? .between c = some ([], mode [c]) := hstart
  rw [List.cons_append, scanFrom?_cons_of_step hfirst, scanFrom?_collect hstep,
    scanFrom?_of_delimited hmode _ hlater, hfinish _ hopened, Option.bind_some]

theorem scans_name
    {c : Char} {rest : Text} {value : Json}
    (hstart : start? c = some ([], .name [c]))
    (hrest : rest.all Char.isLower = true)
    (hname : ofName? (c :: rest) = some value) :
    ScansDelimited (c :: rest) [atom value] := by
  refine scans_collected (Or.inl rfl) hstart ?_ ?_
  · intro opened d hd
    rw [step?, if_pos (List.all_eq_true.mp hrest d hd)]
  · intro opened hopened
    rw [finish?, hopened, hname, Option.map_some]

theorem scans_literal
    {c : Char} {rest : Text} {value : Json}
    (hstart : start? c = some ([], .number [c]))
    (hrest : ∀ d ∈ rest, continuesNumber d = true)
    (hnumber : ofNumber? (c :: rest) = some value) :
    ScansDelimited (c :: rest) [atom value] := by
  refine scans_collected (Or.inr rfl) hstart ?_ ?_
  · intro opened d hd
    rw [step?, if_pos (hrest d hd)]
  · intro opened hopened
    rw [finish?, hopened, hnumber, Option.map_some]

end Atoms

section Numbers

theorem isWhole_of_whole
    {digits : Text}
    (hwhole : Whole digits) :
    isWhole digits = true := by
  cases hwhole with
  | zero =>
      rfl
  | @digits c rest hc hzero hrest =>
      have hall : (c :: rest).all Char.isDigit = true := by
        simpa [hc] using hrest
      rw [isWhole]
      · rw [hall, Bool.and_true, decide_eq_true_eq]
        exact hzero
      · intro heq _
        exact hzero heq

theorem isDigit_of_whole
    {digits : Text} {c : Char}
    (hwhole : Whole digits) (hmem : c ∈ digits) :
    c.isDigit = true := by
  cases hwhole with
  | zero =>
      rw [List.mem_singleton.mp hmem]
      rfl
  | digits hc _ hrest =>
      rcases List.mem_cons.mp hmem with rfl | hmem
      · exact hc
      · exact hrest c hmem

theorem isDigits_of_digits
    {digits : Text}
    (hdigits : Digits digits) :
    isDigits digits = true := by
  rw [isDigits, Bool.and_eq_true, Bool.not_eq_true', List.isEmpty_eq_false_iff, List.all_eq_true]
  exact ⟨hdigits.nonempty, hdigits.digits⟩

theorem isExponent_append
    {sign digits : Text}
    (hsign : sign = [] ∨ sign = ['+'] ∨ sign = ['-']) (hdigits : Digits digits) :
    isExponent (sign ++ digits) = true := by
  rcases hsign with rfl | rfl | rfl
  · rw [List.nil_append]
    unfold isExponent
    split
    · exact absurd (hdigits.digits '+' List.mem_cons_self) (by decide)
    · exact absurd (hdigits.digits '-' List.mem_cons_self) (by decide)
    · exact isDigits_of_digits hdigits
  · exact isDigits_of_digits hdigits
  · exact isDigits_of_digits hdigits

theorem isExponentMark_of_isDigit
    {c : Char}
    (hdigit : c.isDigit = true) :
    isExponentMark c = false := by
  rw [isExponentMark, Bool.or_eq_false_iff, decide_eq_false_iff_not, decide_eq_false_iff_not]
  constructor <;> (rintro rfl; cases hdigit)

/-- The part of a fraction before its exponent. -/
theorem takeWhile_fraction
    {digits : Text}
    (hdigits : Digits digits) (exponent : Text) :
    (digits ++ exponent).takeWhile (fun c => !isExponentMark c) =
      digits ++ exponent.takeWhile fun c => !isExponentMark c := by
  refine List.takeWhile_append_of_pos fun c hc => ?_
  rw [isExponentMark_of_isDigit (hdigits.digits c hc), Bool.not_false]

theorem dropWhile_fraction
    {digits : Text}
    (hdigits : Digits digits) (exponent : Text) :
    (digits ++ exponent).dropWhile (fun c => !isExponentMark c) =
      exponent.dropWhile fun c => !isExponentMark c := by
  refine List.dropWhile_append_of_pos fun c hc => ?_
  rw [isExponentMark_of_isDigit (hdigits.digits c hc), Bool.not_false]

theorem isScale_of_scale
    {scale : Text}
    (hscale : Scale scale) :
    isScale scale = true := by
  cases hscale with
  | @fraction digits hdigits =>
      have htake := takeWhile_fraction hdigits []
      have hdrop := dropWhile_fraction hdigits []
      rw [List.append_nil, List.takeWhile_nil, List.append_nil] at htake
      rw [List.append_nil, List.dropWhile_nil] at hdrop
      rw [isScale, htake, hdrop, isDigits_of_digits hdigits]
      rfl
  | exponent hexponent =>
      obtain ⟨hmark, hsign, hdigits⟩ := hexponent
      rcases hmark with rfl | rfl
      · exact isExponent_append hsign hdigits
      · exact isExponent_append hsign hdigits
  | @both digits exponent hdigits hexponent =>
      obtain ⟨hmark, hsign, hexponent⟩ := hexponent
      rw [isScale, takeWhile_fraction hdigits, dropWhile_fraction hdigits]
      rcases hmark with rfl | rfl
      all_goals
        rw [List.takeWhile_cons_of_neg (by decide), List.dropWhile_cons_of_neg (by decide),
          List.append_nil, isDigits_of_digits hdigits, Bool.true_and]
        exact isExponent_append hsign hexponent

/-- A scale begins with a character that is no digit. -/
theorem eq_cons_of_scale
    {scale : Text}
    (hscale : Scale scale) :
    ∃ c rest, scale = c :: rest ∧ c.isDigit = false := by
  cases hscale with
  | fraction =>
      exact ⟨_, _, rfl, by decide⟩
  | exponent hexponent =>
      obtain ⟨rfl | rfl, -, -⟩ := hexponent
      · exact ⟨_, _, rfl, by decide⟩
      · exact ⟨_, _, rfl, by decide⟩
  | both =>
      exact ⟨_, _, rfl, by decide⟩

variable {digits : Text}

theorem ofMagnitude?_of_whole
    (hwhole : Whole digits) (negative : Bool) (literal : Text) :
    ofMagnitude? negative literal digits =
      if negative then
        if digits = ['0'] then some (.real literal)
        else some (.int (-(Text.digitsValue digits : Int)))
      else
        some (.int (Text.digitsValue digits : Int)) := by
  have htake : digits.takeWhile Char.isDigit = digits :=
    List.takeWhile_eq_self_iff.mpr fun _ hc => isDigit_of_whole hwhole hc
  have hdrop : digits.dropWhile Char.isDigit = [] :=
    List.dropWhile_eq_nil_iff.mpr fun _ hc => isDigit_of_whole hwhole hc
  rw [ofMagnitude?, htake, hdrop, if_pos (isWhole_of_whole hwhole)]

theorem ofMagnitude?_of_scale
    {scale : Text}
    (hwhole : Whole digits) (hscale : Scale scale) (negative : Bool) (literal : Text) :
    ofMagnitude? negative literal (digits ++ scale) = some (.real literal) := by
  have hdigits : ∀ c ∈ digits, c.isDigit = true := fun _ hc => isDigit_of_whole hwhole hc
  have hisScale := isScale_of_scale hscale
  obtain ⟨c, rest, rfl, hc⟩ := eq_cons_of_scale hscale
  have hneg : ¬ c.isDigit = true := by
    simp [hc]
  rw [ofMagnitude?, List.takeWhile_append_of_pos hdigits, List.dropWhile_append_of_pos hdigits,
    List.takeWhile_cons_of_neg hneg, List.dropWhile_cons_of_neg hneg, List.append_nil,
    if_pos (isWhole_of_whole hwhole)]
  exact if_pos hisScale

theorem eq_cons_of_whole
    (hwhole : Whole digits) :
    ∃ c rest, digits = c :: rest ∧ c.isDigit = true := by
  cases hwhole with
  | zero =>
      exact ⟨_, _, rfl, rfl⟩
  | digits hc =>
      exact ⟨_, _, rfl, hc⟩

theorem ofNumber?_of_isDigit
    {c : Char}
    (hdigit : c.isDigit = true) (rest : Text) :
    ofNumber? (c :: rest) = ofMagnitude? false (c :: rest) (c :: rest) := by
  unfold ofNumber?
  split
  · next hcons =>
      cases hcons
      cases hdigit
  · rfl

/-- Every text of a number stands for it. -/
theorem ofNumber?_of_number
    {value : Json} {text : Text}
    (hnumber : Number value text) :
    ofNumber? text = some value := by
  cases hnumber with
  | natural hwhole =>
      obtain ⟨c, rest, rfl, hc⟩ := eq_cons_of_whole hwhole
      rw [ofNumber?_of_isDigit hc, ofMagnitude?_of_whole hwhole]
      rfl
  | negative hwhole hzero =>
      rw [ofNumber?, ofMagnitude?_of_whole hwhole, if_pos rfl, if_neg hzero]
  | negativeZero =>
      rfl
  | scaled hsign hwhole hscale =>
      rcases hsign with rfl | rfl
      · have hmagnitude := ofMagnitude?_of_scale hwhole hscale false
        obtain ⟨c, rest, rfl, hc⟩ := eq_cons_of_whole hwhole
        rw [List.nil_append, List.cons_append, ofNumber?_of_isDigit hc]
        exact hmagnitude _
      · exact ofMagnitude?_of_scale hwhole hscale true _

theorem continuesNumber_of_isDigit
    {c : Char}
    (hdigit : c.isDigit = true) :
    continuesNumber c = true := by
  rw [continuesNumber, hdigit]
  rfl

theorem continuesNumber_of_exponent
    {exponent : Text} {c : Char}
    (hexponent : Exponent exponent) (hmem : c ∈ exponent) :
    continuesNumber c = true := by
  obtain ⟨hmark, hsign, hdigits⟩ := hexponent
  rcases List.mem_cons.mp hmem with rfl | hmem
  · rcases hmark with rfl | rfl <;> decide
  · rcases List.mem_append.mp hmem with hmem | hmem
    · rcases hsign with rfl | rfl | rfl
      · cases hmem
      · rw [List.mem_singleton.mp hmem]
        decide
      · rw [List.mem_singleton.mp hmem]
        decide
    · exact continuesNumber_of_isDigit (hdigits.digits c hmem)

theorem continuesNumber_of_scale
    {scale : Text} {c : Char}
    (hscale : Scale scale) (hmem : c ∈ scale) :
    continuesNumber c = true := by
  cases hscale with
  | fraction hdigits =>
      rcases List.mem_cons.mp hmem with rfl | hmem
      · decide
      · exact continuesNumber_of_isDigit (hdigits.digits c hmem)
  | exponent hexponent =>
      exact continuesNumber_of_exponent hexponent hmem
  | both hdigits hexponent =>
      rcases List.mem_cons.mp hmem with rfl | hmem
      · decide
      · rcases List.mem_append.mp hmem with hmem | hmem
        · exact continuesNumber_of_isDigit (hdigits.digits c hmem)
        · exact continuesNumber_of_exponent hexponent hmem

theorem continuesNumber_of_number
    {value : Json} {text : Text} {c : Char}
    (hnumber : Number value text) (hmem : c ∈ text) :
    continuesNumber c = true := by
  have hwhole : ∀ {digits : Text}, Whole digits → c ∈ digits → continuesNumber c = true :=
    fun hdigits hc => continuesNumber_of_isDigit (isDigit_of_whole hdigits hc)
  cases hnumber with
  | natural hdigits =>
      exact hwhole hdigits hmem
  | negative hdigits =>
      rcases List.mem_cons.mp hmem with rfl | hmem
      · decide
      · exact hwhole hdigits hmem
  | negativeZero =>
      have hall : ['-', '0'].all continuesNumber = true := rfl
      exact List.all_eq_true.mp hall c hmem
  | scaled hsign hdigits hscale =>
      rcases List.mem_append.mp hmem with hmem | hmem
      · rcases hsign with rfl | rfl
        · cases hmem
        · rw [List.mem_singleton.mp hmem]
          decide
      · rcases List.mem_append.mp hmem with hmem | hmem
        · exact hwhole hdigits hmem
        · exact continuesNumber_of_scale hscale hmem

theorem start?_of_isDigit
    {c : Char}
    (hdigit : c.isDigit = true) :
    start? c = some ([], .number [c]) := by
  have hne : ∀ d : Char, d.isDigit = false → c ≠ d := by
    rintro d hd rfl
    rw [hd] at hdigit
    cases hdigit
  have hspace : ¬ isSpace c = true := by
    simp [isSpace, hne ' ' rfl, hne '\t' rfl, hne '\n' rfl, hne '\r' rfl]
  rw [start?, if_neg hspace, if_neg (hne '[' rfl), if_neg (hne ']' rfl), if_neg (hne '\x7b' rfl),
    if_neg (hne '\x7d' rfl), if_neg (hne ',' rfl), if_neg (hne ':' rfl), if_neg (hne '"' rfl),
    if_pos (by rw [hdigit]; rfl)]

theorem start?_of_number
    {value : Json} {text : Text}
    (hnumber : Number value text) :
    ∃ c rest, text = c :: rest ∧ start? c = some ([], .number [c]) := by
  have hminus : start? '-' = some ([], .number ['-']) := rfl
  cases hnumber with
  | natural hwhole =>
      obtain ⟨c, rest, rfl, hc⟩ := eq_cons_of_whole hwhole
      exact ⟨c, rest, rfl, start?_of_isDigit hc⟩
  | negative =>
      exact ⟨_, _, rfl, hminus⟩
  | negativeZero =>
      exact ⟨_, _, rfl, hminus⟩
  | scaled hsign hwhole =>
      rcases hsign with rfl | rfl
      · obtain ⟨c, rest, rfl, hc⟩ := eq_cons_of_whole hwhole
        exact ⟨c, _, rfl, start?_of_isDigit hc⟩
      · exact ⟨_, _, rfl, hminus⟩

/-- Every text of a number is scanned as the number. -/
theorem scans_number
    {value : Json} {text : Text}
    (hnumber : Number value text) :
    ScansDelimited text [atom value] := by
  have hcontinues : ∀ c ∈ text, continuesNumber c = true :=
    fun _ hc => continuesNumber_of_number hnumber hc
  have hvalue := ofNumber?_of_number hnumber
  obtain ⟨c, rest, rfl, hstart⟩ := start?_of_number hnumber
  exact scans_literal hstart (fun d hd => hcontinues d (List.mem_cons_of_mem c hd)) hvalue

end Numbers
end Symbol
end Json
end InfixCalc
