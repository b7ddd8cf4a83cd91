import InfixCalc.Json.Encode
import InfixCalc.Program
import InfixCalc.Proofs.JsonReading
import InfixCalc.Proofs.Numerals
import Mathlib.Data.List.Forall2

/-!
# Writing JSON texts

The written form of a value is a text of the grammar for this value, so it is
read as this value again, and as no other.  All forms that the program writes
are of this kind.

* `characters_escape` : escaping writes the characters of a string.
* `Writable` : a value whose kept literals are texts of numbers.
* `value_write` : the written form of a value.
* `Program.json_faithful` : the reports on a source, expressions and sequences.
-/

namespace InfixCalc
namespace Json

open Grammar

section Atoms

theorem hexValue?_hexDigit
    (n : Nat) :
    Symbol.hexValue? (hexDigit n) = some (n % 16) := by
  have hdigits : ∀ digit < 16, Symbol.hexValue? (Nat.digitChar digit) = some digit := by
    decide
  exact hdigits (n % 16) (Nat.mod_lt n (by decide))

/-- A control character that is written by its code. -/
theorem character_control
    {c : Char}
    (hcontrol : c.toNat < 32) :
    Character c ['\\', 'u', '0', '0', hexDigit (c.toNat / 16), hexDigit c.toNat] := by
  have hzero : Symbol.hexValue? '0' = some 0 := rfl
  have hunit := CodeUnit.mk hzero hzero (hexValue?_hexDigit (c.toNat / 16))
    (hexValue?_hexDigit c.toNat)
  have hvalue : 16 * (16 * (16 * 0 + 0) + c.toNat / 16 % 16) + c.toNat % 16 = c.toNat := by
    omega
  rw [hvalue] at hunit
  exact .unit hunit

theorem character_escape
    (c : Char) :
    Character c (escape c) := by
  unfold escape
  iterate 7
    split
    · next hc =>
        rw [hc]
        exact .short (by decide)
  split
  · next hcontrol =>
      exact character_control hcontrol
  · next hquote hbackslash _ _ _ _ _ hcontrol =>
      exact .plain hquote hbackslash (by omega)

/-- Escaping writes the characters of a string. -/
theorem characters_escape
    (text : Text) :
    Characters text (text.flatMap escape) := by
  induction text with
  | nil =>
      exact .nil
  | cons c text ih =>
      exact .cons (character_escape c) ih

theorem head_ofNat
    {n : Nat}
    (hpos : 0 < n) :
    ∃ c rest, Text.ofNat n = c :: rest ∧ c ≠ '0' := by
  induction n using Nat.strong_induction_on with
  | _ n ih =>
      by_cases hsmall : n < 10
      · have hdigits : ∀ digit < 10, 0 < digit → Nat.digitChar digit ≠ '0' := by
          decide
        exact ⟨_, _, Nat.toDigits_of_lt_base hsmall, hdigits n hsmall hpos⟩
      · obtain ⟨c, rest, hrest, hc⟩ := ih (n / 10) (by omega) (by omega)
        refine ⟨c, rest ++ [Nat.digitChar (n % 10)], ?_, hc⟩
        rw [Text.ofNat, Nat.toDigits_of_base_le (by decide) (by omega), ← Text.ofNat, hrest,
          List.cons_append]

/-- The decimal form of a number has no zero in front. -/
theorem whole_ofNat
    (n : Nat) :
    Whole (Text.ofNat n) := by
  rcases Nat.eq_zero_or_pos n with rfl | hpos
  · exact .zero
  · obtain ⟨c, rest, htext, hc⟩ := head_ofNat hpos
    have hdigits : ∀ d ∈ c :: rest, d.isDigit = true := by
      intro d hd
      exact Text.isDigit_of_mem_ofNat (htext ▸ hd)
    rw [List.forall_mem_cons] at hdigits
    exact htext ▸ .digits hdigits.1 hc hdigits.2

theorem number_ofInt
    (value : Int) :
    Number (.int value) (Text.ofInt value) := by
  rcases Text.ofInt_cases value with ⟨n, rfl, htext⟩ | ⟨n, rfl, htext⟩
  · have hnumber := Number.natural (whole_ofNat n)
    rw [Text.digitsValue_ofNat] at hnumber
    rwa [htext]
  · have hzero : Text.ofNat (n + 1) ≠ ['0'] := by
      intro hzero
      have hvalue := Text.digitsValue_ofNat (n + 1)
      rw [hzero] at hvalue
      cases hvalue
    have hnumber := Number.negative (whole_ofNat (n + 1)) hzero
    rw [Text.digitsValue_ofNat] at hnumber
    rwa [htext]

end Atoms

section Values

/-- A value whose kept literals are texts of numbers. -/
inductive Writable : Json → Prop
  | null :
      Writable .null
  | bool (value : Bool) :
      Writable (.bool value)
  | int (value : Int) :
      Writable (.int value)
  | real {literal : Text} :
      Number (.real literal) literal →
      Writable (.real literal)
  | str (text : Text) :
      Writable (.str text)
  | arr {elements : List Json} :
      (∀ element ∈ elements, Writable element) →
      Writable (.arr elements)
  | obj {members : List (Text × Json)} :
      (∀ member ∈ members, Writable member.2) →
      Writable (.obj members)

/-- Writing a value puts a text of it before whatever follows. -/
def Writes (value : Json) : Prop :=
  ∀ level, ∃ text, Grammar.Value value text ∧ ∀ after, write level value after = text ++ after

theorem space_newLine
    (level : Nat) :
    Space (newLine level) := by
  intro c hc
  rcases List.mem_cons.mp hc with rfl | hc
  · exact Or.inr (Or.inr (Or.inl rfl))
  · exact Or.inl (List.eq_of_mem_replicate hc)

theorem space_nil :
    Space [] := by
  intro c hc
  cases hc

theorem elements_write
    {first : Json} {rest : List Json}
    (hwrites : ∀ element ∈ first :: rest, Writes element)
    (level : Nat) :
    ∃ text, Elements (first :: rest) text ∧ ∀ after,
      newLine (level + 1) ++ write (level + 1) first (writeElements level rest after) =
        text ++ ']' :: after := by
  induction rest generalizing first with
  | nil =>
      obtain ⟨text, hvalue, hwrite⟩ := hwrites first List.mem_cons_self (level + 1)
      -- the line break before the bracket belongs to the last element
      refine ⟨_, .last (.mk (space_newLine (level + 1)) hvalue (space_newLine level)), ?_⟩
      intro after
      rw [writeElements, hwrite]
      simp
  | cons next rest ih =>
      obtain ⟨text, hvalue, hwrite⟩ := hwrites first List.mem_cons_self (level + 1)
      obtain ⟨later, hlater, hwriteLater⟩ :=
        ih fun element helement => hwrites element (List.mem_cons_of_mem first helement)
      refine ⟨_, .cons (.mk (space_newLine (level + 1)) hvalue space_nil) hlater, ?_⟩
      intro after
      rw [writeElements, List.cons_append, hwriteLater, hwrite]
      simp

theorem members_write
    {key : Text} {first : Json} {rest : List (Text × Json)}
    (hwrites : ∀ member ∈ (key, first) :: rest, Writes member.2)
    (level : Nat) :
    ∃ text, Members ((key, first) :: rest) text ∧ ∀ after,
      newLine (level + 1) ++ (quote key ++ ':' :: ' ' ::
          write (level + 1) first (writeMembers level rest after)) =
        text ++ '\x7d' :: after := by
  have hspace : Space [' '] := by
    intro c hc
    exact Or.inl (List.mem_singleton.mp hc)
  induction rest generalizing key first with
  | nil =>
      obtain ⟨text, hvalue, hwrite⟩ := hwrites (key, first) List.mem_cons_self (level + 1)
      refine ⟨_, .last (.mk (space_newLine (level + 1)) (characters_escape key) space_nil
        (.mk hspace hvalue (space_newLine level))), ?_⟩
      intro after
      rw [writeMembers, hwrite]
      simp [quote]
  | cons next rest ih =>
      obtain ⟨text, hvalue, hwrite⟩ := hwrites (key, first) List.mem_cons_self (level + 1)
      obtain ⟨later, hlater, hwriteLater⟩ :=
        ih fun member hmember => hwrites member (List.mem_cons_of_mem _ hmember)
      refine ⟨_, .cons (.mk (space_newLine (level + 1)) (characters_escape key) space_nil
        (.mk hspace hvalue space_nil)) hlater, ?_⟩
      intro after
      rw [writeMembers, hwrite]
      simp only [List.cons_append, List.append_assoc]
      rw [hwriteLater, quote]
      simp

/-- The written form of a value is a text of it. -/
theorem value_write
    {value : Json}
    (hwritable : Writable value) :
    Writes value := by
  intro level
  induction hwritable generalizing level with
  | null =>
      exact ⟨_, .null, fun _ => rfl⟩
  | bool value =>
      cases value with
      | true =>
          exact ⟨_, .true, fun _ => rfl⟩
      | false =>
          exact ⟨_, .false, fun _ => rfl⟩
  | int value =>
      exact ⟨_, .number (number_ofInt value), fun _ => rfl⟩
  | real hnumber =>
      exact ⟨_, .number hnumber, fun _ => rfl⟩
  | str text =>
      refine ⟨_, .string (characters_escape text), fun after => ?_⟩
      rw [write, quote]
      rfl
  | @arr elements _ ih =>
      cases elements with
      | nil =>
          exact ⟨_, .emptyArray space_nil, fun _ => rfl⟩
      | cons first rest =>
          obtain ⟨text, helements, hwrite⟩ := elements_write ih level
          refine ⟨_, .array helements, fun after => ?_⟩
          rw [write, List.cons_append, hwrite, List.cons_append, List.append_assoc,
            List.singleton_append]
  | @obj members _ ih =>
      cases members with
      | nil =>
          exact ⟨_, .emptyObject space_nil, fun _ => rfl⟩
      | cons member rest =>
          obtain ⟨text, hmembers, hwrite⟩ := members_write ih level
          refine ⟨_, .object hmembers, fun after => ?_⟩
          rw [write]
          simp only [List.cons_append, List.append_assoc]
          rw [hwrite, List.nil_append]

end Values

/-- A text that stands for a value: it is a text of the value, it is read as
the value, and it is a text of no other. -/
structure Faithful (value : Json) (text : Text) : Prop where
  document : Document value text
  read : read? text = some value
  only (other : Json) : Document other text → other = value

theorem Faithful.of_document
    {value : Json} {text : Text}
    (hdocument : Document value text) :
    Faithful value text := by
  constructor
  case document =>
    exact hdocument
  case read =>
    exact read?_of_document hdocument
  case only =>
    intro other hother
    exact hother.unique hdocument

/-- The written form of a value stands for it, also with spaces behind it. -/
theorem faithful_write
    {value : Json}
    (hwritable : Writable value) :
    ∃ text,
      (∀ after, write 0 value after = text ++ after) ∧
      ∀ {after}, Space after → Faithful value (text ++ after) := by
  obtain ⟨text, hvalue, hwrite⟩ := value_write hwritable 0
  exact ⟨text, hwrite, fun hafter => .of_document (.mk space_nil hvalue hafter)⟩

theorem faithful_render
    {value : Json}
    (hwritable : Writable value) :
    Faithful value value.render := by
  obtain ⟨text, hwrite, hfaithful⟩ := faithful_write hwritable
  rw [render, hwrite]
  exact hfaithful space_nil

end Json

section Forms

open Json

theorem Json.Writable.tagged
    {kind : Text} {value : Json}
    (hvalue : Writable value) :
    Writable (Json.tagged kind value) := by
  refine .obj ?_
  rw [List.forall_mem_cons, List.forall_mem_singleton]
  exact ⟨.str kind, hvalue⟩

theorem Token.writable_toJson
    (token : Token) :
    Writable token.toJson := by
  cases token with
  | operator op =>
      exact .tagged (.str op.name)
  | number value =>
      exact .tagged (.int value.toInt)
  | opening | closing | bottom =>
      exact .obj (List.forall_mem_singleton.mpr (.str _))

theorem Expr.writable_toJson
    (tree : Expr) :
    Writable tree.toJson := by
  induction tree with
  | number value =>
      exact .tagged (.int value.toInt)
  | binary op left right ihLeft ihRight =>
      refine .tagged (.obj ?_)
      rw [List.forall_mem_cons, List.forall_mem_cons, List.forall_mem_singleton]
      exact ⟨ihLeft, .str op.name, ihRight⟩

theorem Rpn.writable_toJson
    (rpn : Rpn) :
    Writable (Rpn.toJson rpn) :=
  .arr (List.forall_mem_map.mpr fun token _ => token.writable_toJson)

theorem Outcome.writable_toJson
    {α : Type} {form : α → Json}
    (hform : ∀ value, Writable (form value))
    (outcome : Outcome α) :
    Writable (outcome.toJson form) := by
  cases outcome with
  | value found =>
      exact .obj (List.forall_mem_singleton.mpr (hform found))
  | error message =>
      exact .obj (List.forall_mem_singleton.mpr (.str message))

theorem Report.writable_toJson
    (report : Report) :
    Writable report.toJson := by
  have hvalue : ∀ value, Writable (Value.toJson value) := fun value => .int value.toInt
  have hmembers : ∀ member ∈ report.members, Writable member.2 := by
    simp only [Report.members, List.forall_mem_cons]
    refine ⟨.int _, .str _, ?_, ?_, ?_, by simp⟩
    · exact report.rpn.writable_toJson Writable.str
    · exact report.rpnValue.writable_toJson hvalue
    · exact report.treeValue.writable_toJson hvalue
  have htree : ∀ member ∈ report.treeMember, Writable member.2 := by
    rw [Report.treeMember]
    split
    · next tree _ =>
        exact List.forall_mem_singleton.mpr tree.writable_toJson
    · simp
  exact .obj (List.forall_mem_append.mpr ⟨hmembers, htree⟩)

/-- What the form of a report says: it is an object with the number, the
expression and the three outcomes, and with the tree if and only if there is
one. -/
structure Report.Shows (report : Report) (members : List (Text × Json)) : Prop where
  keys :
    members.map Prod.fst =
      ["number".toList, "infix".toList, "postfix".toList, "postfix_value".toList,
        "tree_value".toList] ++ (if report.tree?.isSome then ["tree".toList] else [])
  number :
    lookup? "number".toList members = some (.int report.number)
  expression :
    lookup? "infix".toList members = some (.str report.expression)
  rpn :
    lookup? "postfix".toList members = some (report.rpn.toJson .str)
  rpnValue :
    lookup? "postfix_value".toList members = some (report.rpnValue.toJson Value.toJson)
  treeValue :
    lookup? "tree_value".toList members = some (report.treeValue.toJson Value.toJson)
  tree :
    lookup? "tree".toList members = report.tree?.map Expr.toJson

theorem Report.shows_members
    (report : Report) :
    report.Shows (report.members ++ report.treeMember) := by
  obtain ⟨number, expression, rpn, rpnValue, treeValue, tree?⟩ := report
  cases tree? with
  | none =>
      constructor <;> rfl
  | some tree =>
      constructor <;> rfl

end Forms

namespace Program

open Json Json.Grammar

/-- The reports on a source are written as a text and a line feed.  The text,
with or without the line feed, stands for the list of the forms of the reports,
and the form of a report shows all that is in it.  The written forms of
expressions and sequences stand for their forms. -/
theorem json_faithful :
    (∀ source, ∃ text,
      renderReports .json (Report.ofSource source) = text ++ ['\n'] ∧
      Faithful (.arr ((Report.ofSource source).map Report.toJson)) text ∧
      Faithful (.arr ((Report.ofSource source).map Report.toJson)) (text ++ ['\n'])) ∧
    (∀ report : Report, ∃ members, report.toJson = .obj members ∧ report.Shows members) ∧
    (∀ tree : Expr, Faithful tree.toJson tree.toJson.render) ∧
    ∀ rpn : Rpn, Faithful (Rpn.toJson rpn) (Rpn.toJson rpn).render := by
  refine ⟨?_, ?_, ?_, ?_⟩
  · intro source
    have hwritable : Writable (.arr ((Report.ofSource source).map Report.toJson)) :=
      .arr (List.forall_mem_map.mpr fun report _ => report.writable_toJson)
    obtain ⟨text, hwrite, hfaithful⟩ := faithful_write hwritable
    have hfeed : Space ['\n'] := space_newLine 0
    have hbare := hfaithful space_nil
    rw [List.append_nil] at hbare
    exact ⟨text, hwrite ['\n'], hbare, hfaithful hfeed⟩
  · intro report
    exact ⟨_, rfl, report.shows_members⟩
  · intro tree
    exact faithful_render tree.writable_toJson
  · intro rpn
    exact faithful_render (Rpn.writable_toJson rpn)

end Program
end InfixCalc
