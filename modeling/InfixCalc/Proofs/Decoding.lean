import InfixCalc.Json.Decode
import InfixCalc.Json.Encode
import InfixCalc.Proofs.Numerals
import Mathlib.Data.List.Forall2
import Mathlib.Data.List.Nodup

/-!
# Decoding what was encoded

Decoding gives back what was encoded.  It finds the members of an object by
their keys, so it does not matter in which order they stand, nor which other
members stand among them, at any depth.

* `Json.Loosened` : a form with its members in another order and among others.
* `Json.Undoes` : what is asked of a decoder.
* `Json.decoders_undo` : the decoders of operators, tokens, expressions and
  sequences.
-/

namespace InfixCalc
namespace Json

/-- The keys that mean something in an object: a type and a value, or, if it
has no type, the parts of a node. -/
def knownKeys (members : List (Text × Json)) : List Text :=
  if (lookup? "type".toList members).isSome then
    ["type".toList, "value".toList]
  else
    ["left".toList, "operator".toList, "right".toList]

/-- A form that was loosened: in any of its objects the members stand in
another order, and members with unknown keys have been added. -/
inductive Loosened : Json → Json → Prop
  | same (form : Json) :
      Loosened form form
  | array {elements others : List Json} :
      List.Forall₂ Loosened elements others →
      Loosened (.arr elements) (.arr others)
  | object {members others added mixed : List (Text × Json)} :
      members.map Prod.fst = others.map Prod.fst →
      List.Forall₂ Loosened (members.map Prod.snd) (others.map Prod.snd) →
      (∀ member ∈ added, member.1 ∉ knownKeys members) →
      mixed.Perm (others ++ added) →
      Loosened (.obj members) (.obj mixed)

section Members

variable {key : Text} {value : Json} {members : List (Text × Json)}

theorem lookup?_cons
    (name : Text) (first : Json) (rest : List (Text × Json)) :
    lookup? key ((name, first) :: rest) =
      (lookup? key rest).or (if name = key then some first else none) := by
  rw [lookup?]
  cases lookup? key rest <;> rfl

theorem mem_of_lookup?
    (hlookup : lookup? key members = some value) :
    (key, value) ∈ members := by
  induction members with
  | nil =>
      cases hlookup
  | cons member rest ih =>
      obtain ⟨name, first⟩ := member
      rw [lookup?_cons, Option.or_eq_some_iff] at hlookup
      rcases hlookup with hrest | ⟨-, hfirst⟩
      · exact List.mem_cons_of_mem _ (ih hrest)
      · split at hfirst
        · next hname =>
            cases hfirst
            rw [hname]
            exact List.mem_cons_self
        · cases hfirst

theorem lookup?_eq_none_iff :
    lookup? key members = none ↔ ∀ member ∈ members, member.1 ≠ key := by
  induction members with
  | nil =>
      simp [lookup?]
  | cons member rest ih =>
      obtain ⟨name, first⟩ := member
      rw [lookup?_cons, Option.or_eq_none_iff, ih, List.forall_mem_cons, and_comm]
      simp

/-- A member is found by its key if no other one has it. -/
theorem lookup?_of_mem
    (hmem : (key, value) ∈ members)
    (honly : ∀ other, (key, other) ∈ members → other = value) :
    lookup? key members = some value := by
  cases hlookup : lookup? key members with
  | none =>
      exact absurd rfl (lookup?_eq_none_iff.mp hlookup _ hmem)
  | some found =>
      rw [honly found (mem_of_lookup? hlookup)]

/-- The order of members does not matter if their keys are different, and
neither do members with other keys. -/
theorem lookup?_mixed
    {added mixed : List (Text × Json)}
    (hkeys : (members.map Prod.fst).Nodup)
    (hadded : ∀ member ∈ added, member.1 ≠ key)
    (hmixed : mixed.Perm (members ++ added)) :
    lookup? key mixed = lookup? key members := by
  have hmem : ∀ value, (key, value) ∈ mixed ↔ (key, value) ∈ members := by
    intro value
    rw [hmixed.mem_iff, List.mem_append, or_iff_left]
    exact fun hmember => hadded _ hmember rfl
  cases hlookup : lookup? key members with
  | none =>
      rw [lookup?_eq_none_iff] at hlookup ⊢
      rintro ⟨name, value⟩ hmember rfl
      exact hlookup _ ((hmem value).mp hmember) rfl
  | some value =>
      -- the last member with the key counts, but there is only one
      have hvalue := mem_of_lookup? hlookup
      refine lookup?_of_mem ((hmem value).mpr hvalue) ?_
      intro other hother
      have hsame := List.inj_on_of_nodup_map hkeys ((hmem other).mp hother) hvalue rfl
      exact (Prod.mk.inj hsame).2

end Members

theorem lookup?_rel
    {members others : List (Text × Json)}
    (hnames : members.map Prod.fst = others.map Prod.fst)
    (hvalues : List.Forall₂ Loosened (members.map Prod.snd) (others.map Prod.snd))
    (key : Text) :
    Option.Rel Loosened (lookup? key members) (lookup? key others) := by
  induction members generalizing others with
  | nil =>
      rw [List.map_nil, eq_comm, List.map_eq_nil_iff] at hnames
      rw [hnames]
      exact .none
  | cons member members ih =>
      cases others with
      | nil =>
          cases hnames
      | cons other others =>
          obtain ⟨name, value⟩ := member
          obtain ⟨_, loosened⟩ := other
          injection hnames with hname hnames
          cases hname
          cases hvalues with
          | cons hvalue hvalues =>
              have hrest := ih hnames hvalues
              rw [lookup?_cons, lookup?_cons]
              generalize lookup? key members = found at hrest
              generalize lookup? key others = foundThere at hrest
              cases hrest with
              | some hfound =>
                  exact .some hfound
              | none =>
                  by_cases hname : name = key
                  · rw [if_pos hname, if_pos hname]
                    exact .some hvalue
                  · rw [if_neg hname, if_neg hname]
                    exact .none

namespace Loosened

theorem eq_of_str
    {text : Text} {form : Json}
    (hform : Loosened (.str text) form) :
    form = .str text := by
  cases hform
  rfl

theorem eq_of_int
    {value : Int} {form : Json}
    (hform : Loosened (.int value) form) :
    form = .int value := by
  cases hform
  rfl

theorem elements
    {elements : List Json} {form : Json}
    (hform : Loosened (.arr elements) form) :
    ∃ others, form = .arr others ∧ List.Forall₂ Loosened elements others := by
  cases hform with
  | same =>
      exact ⟨elements, rfl, List.forall₂_same.mpr fun element _ => .same element⟩
  | array hothers =>
      exact ⟨_, rfl, hothers⟩

theorem exists_of_rel_some
    {value : Json} {found : Option Json}
    (hfound : Option.Rel Loosened (some value) found) :
    ∃ loosened, found = some loosened ∧ Loosened value loosened := by
  cases hfound with
  | some hvalue =>
      exact ⟨_, rfl, hvalue⟩

theorem eq_none_of_rel_none
    {found : Option Json}
    (hfound : Option.Rel Loosened none found) :
    found = none := by
  cases hfound
  rfl

/-- The members with known keys are found, loosened in turn. -/
theorem members
    {members : List (Text × Json)} {form : Json}
    (hform : Loosened (.obj members) form)
    (hkeys : (members.map Prod.fst).Nodup) :
    ∃ mixed,
      form = .obj mixed ∧
      ∀ key ∈ knownKeys members,
        Option.Rel Loosened (lookup? key members) (lookup? key mixed) := by
  cases hform with
  | same =>
      refine ⟨members, rfl, fun key _ => lookup?_rel rfl ?_ key⟩
      exact List.forall₂_same.mpr fun value _ => .same value
  | @object _ others added mixed hnames hvalues hadded hmixed =>
      refine ⟨mixed, rfl, fun key hkey => ?_⟩
      rw [lookup?_mixed (hnames ▸ hkeys) ?_ hmixed]
      · exact lookup?_rel hnames hvalues key
      · rintro member hmember rfl
        exact hadded member hmember hkey

/-- A loosened object with a type and a value. -/
theorem tagged
    {kind : Text} {value form : Json}
    (hform : Loosened (Json.tagged kind value) form) :
    ∃ loosened, Loosened value loosened ∧ form.tagged? = some (kind, some loosened) := by
  have hkeys : ["type".toList, "value".toList].Nodup := by
    decide
  obtain ⟨mixed, rfl, hlookup⟩ := hform.members hkeys
  have htype : Option.Rel Loosened (some (.str kind)) (lookup? "type".toList mixed) :=
    hlookup _ List.mem_cons_self
  have hvalue : Option.Rel Loosened (some value) (lookup? "value".toList mixed) :=
    hlookup _ (List.mem_cons_of_mem _ List.mem_cons_self)
  obtain ⟨loosened, hmember, hloosened⟩ := exists_of_rel_some hvalue
  obtain ⟨name, hname, hsame⟩ := exists_of_rel_some htype
  rw [hsame.eq_of_str] at hname
  refine ⟨loosened, hloosened, ?_⟩
  rw [tagged?, hname, hmember]
  rfl

/-- A loosened object with a type only. -/
theorem bare
    {kind : Text} {form : Json}
    (hform : Loosened (.obj [("type".toList, .str kind)]) form) :
    form.tagged? = some (kind, none) := by
  obtain ⟨mixed, rfl, hlookup⟩ := hform.members (List.nodup_singleton _)
  have htype : Option.Rel Loosened (some (.str kind)) (lookup? "type".toList mixed) :=
    hlookup _ List.mem_cons_self
  have hvalue : Option.Rel Loosened none (lookup? "value".toList mixed) :=
    hlookup _ (List.mem_cons_of_mem _ List.mem_cons_self)
  obtain ⟨name, hname, hsame⟩ := exists_of_rel_some htype
  rw [hsame.eq_of_str] at hname
  rw [tagged?, hname, eq_none_of_rel_none hvalue]
  rfl

/-- A loosened object with the parts of a node. -/
theorem parts
    {left op right form : Json}
    (hform : Loosened
      (.obj [("left".toList, left), ("operator".toList, op), ("right".toList, right)]) form) :
    ∃ atLeft between atRight,
      Loosened left atLeft ∧ Loosened op between ∧ Loosened right atRight ∧
      form.parts? = some (atLeft, between, atRight) := by
  have hkeys : ["left".toList, "operator".toList, "right".toList].Nodup := by
    decide
  obtain ⟨mixed, rfl, hlookup⟩ := hform.members hkeys
  have hleft : Option.Rel Loosened (some left) (lookup? "left".toList mixed) :=
    hlookup _ List.mem_cons_self
  have hop : Option.Rel Loosened (some op) (lookup? "operator".toList mixed) :=
    hlookup _ (List.mem_cons_of_mem _ List.mem_cons_self)
  have hright : Option.Rel Loosened (some right) (lookup? "right".toList mixed) :=
    hlookup _ (List.mem_cons_of_mem _ (List.mem_cons_of_mem _ List.mem_cons_self))
  obtain ⟨atLeft, hatLeft, hleft⟩ := exists_of_rel_some hleft
  obtain ⟨between, hbetween, hop⟩ := exists_of_rel_some hop
  obtain ⟨atRight, hatRight, hright⟩ := exists_of_rel_some hright
  refine ⟨atLeft, between, atRight, hleft, hop, hright, ?_⟩
  rw [parts?, hatLeft, hbetween, hatRight]
  rfl

end Loosened
end Json

section Decoders

open Json

theorem Operator.ofJson?_of_loosened
    {op : Operator} {form : Json}
    (hform : Loosened op.toJson form) :
    Operator.ofJson? form = some op := by
  rw [hform.eq_of_str]
  cases op <;> decide

theorem Value.ofJson?_of_loosened
    {value : Value} {form : Json}
    (hform : Loosened (Value.toJson value) form) :
    form.value? = some value := by
  rw [hform.eq_of_int]
  exact Value.ofInt?_toInt value

theorem Token.ofJson?_of_loosened
    {token : Token} {form : Json}
    (hform : Loosened token.toJson form) :
    Token.ofJson? form = some token := by
  cases token with
  | operator op =>
      obtain ⟨loosened, hop, htagged⟩ := hform.tagged
      rw [Token.ofJson?, htagged, Option.bind_some]
      exact (if_pos rfl).trans (congrArg (Option.map operator) (Operator.ofJson?_of_loosened hop))
  | number value =>
      obtain ⟨loosened, hvalue, htagged⟩ := hform.tagged
      have hkind : "Number".toList ≠ "Operator".toList := by
        decide
      rw [Token.ofJson?, htagged, Option.bind_some]
      exact (if_neg hkind).trans ((if_pos rfl).trans
        (congrArg (Option.map number) (Value.ofJson?_of_loosened hvalue)))
  | opening =>
      rw [Token.ofJson?, hform.bare]
      decide
  | closing =>
      rw [Token.ofJson?, hform.bare]
      decide
  | bottom =>
      rw [Token.ofJson?, hform.bare]
      decide

theorem Expr.ofJson?_of_number
    {form value : Json}
    (htagged : form.tagged? = some ("Number".toList, some value)) :
    Expr.ofJson? form = value.value?.map .number := by
  rw [Expr.ofJson?]
  split
  · next kind found hfound =>
      cases htagged.symm.trans hfound
      exact if_pos rfl
  · next hnone =>
      exact absurd htagged (hnone _ _)

theorem Expr.ofJson?_of_parts
    {form value left op right : Json}
    (htagged : form.tagged? = some ("Binary".toList, some value))
    (hparts : value.parts? = some (left, op, right)) :
    Expr.ofJson? form =
      (Operator.ofJson? op).bind fun decoded =>
        (Expr.ofJson? left).bind fun atLeft =>
          (Expr.ofJson? right).map fun atRight => .binary decoded atLeft atRight := by
  rw [Expr.ofJson?]
  split
  · next kind found hfound =>
      cases htagged.symm.trans hfound
      rw [if_neg (by decide), if_pos rfl]
      split
      · next hfound =>
          cases hparts.symm.trans hfound
          rfl
      · next hnone =>
          cases hparts.symm.trans hnone
  · next hnone =>
      exact absurd htagged (hnone _ _)

theorem Expr.ofJson?_of_loosened
    {tree : Expr} {form : Json}
    (hform : Loosened tree.toJson form) :
    Expr.ofJson? form = some tree := by
  induction tree generalizing form with
  | number value =>
      obtain ⟨loosened, hvalue, htagged⟩ := hform.tagged
      rw [Expr.ofJson?_of_number htagged, Value.ofJson?_of_loosened hvalue, Option.map_some]
  | binary op left right ihLeft ihRight =>
      obtain ⟨loosened, hvalue, htagged⟩ := hform.tagged
      obtain ⟨atLeft, between, atRight, hleft, hop, hright, hparts⟩ := hvalue.parts
      rw [Expr.ofJson?_of_parts htagged hparts, Operator.ofJson?_of_loosened hop,
        Option.bind_some, ihLeft hleft, Option.bind_some, ihRight hright, Option.map_some]

theorem Token.mapM_ofJson?_of_loosened
    {tokens : List Token} {forms : List Json}
    (hforms : List.Forall₂ Loosened (tokens.map Token.toJson) forms) :
    forms.mapM Token.ofJson? = some tokens := by
  induction tokens generalizing forms with
  | nil =>
      cases hforms
      rfl
  | cons token tokens ih =>
      cases hforms with
      | cons hfirst hrest =>
          rw [List.mapM_cons, Token.ofJson?_of_loosened hfirst, ih hrest]
          rfl

theorem Rpn.ofJson?_of_loosened
    {rpn : Rpn} {form : Json}
    (hform : Loosened (Rpn.toJson rpn) form) :
    Rpn.ofJson? form = some rpn := by
  obtain ⟨forms, rfl, hforms⟩ := hform.elements
  exact Token.mapM_ofJson?_of_loosened hforms

end Decoders

namespace Json

/-- A decoder that undoes an encoder, on the forms that the encoder gives and
on what becomes of them when they are loosened. -/
structure Undoes {α : Type} (decode : Json → Option α) (encode : α → Json) : Prop where
  exact (value : α) :
    decode (encode value) = some value
  /-- Loosening does not matter. -/
  loosened (value : α) (form : Json) :
    Loosened (encode value) form →
    decode form = decode (encode value)
  /-- Different values never share a form, not even a loosened one. -/
  apart (value other : α) (form : Json) :
    Loosened (encode value) form →
    Loosened (encode other) form →
    value = other

theorem Undoes.of_loosened
    {α : Type} {decode : Json → Option α} {encode : α → Json}
    (hdecode : ∀ {value form}, Loosened (encode value) form → decode form = some value) :
    Undoes decode encode := by
  constructor
  case exact =>
    intro value
    exact hdecode (.same _)
  case loosened =>
    intro value form hform
    rw [hdecode hform, hdecode (.same _)]
  case apart =>
    intro value other form hvalue hother
    exact Option.some.inj ((hdecode hvalue).symm.trans (hdecode hother))

/-- Operators, tokens, expressions and sequences are decoded from their forms,
however these are loosened. -/
theorem decoders_undo :
    Undoes Operator.ofJson? Operator.toJson ∧
    Undoes Token.ofJson? Token.toJson ∧
    Undoes Expr.ofJson? Expr.toJson ∧
    Undoes Rpn.ofJson? Rpn.toJson :=
  ⟨.of_loosened Operator.ofJson?_of_loosened, .of_loosened Token.ofJson?_of_loosened,
    .of_loosened Expr.ofJson?_of_loosened, .of_loosened Rpn.ofJson?_of_loosened⟩

/-- The form of an operand with its members reversed. -/
def reversedNumber (value : Int) : Json :=
  .obj [("value".toList, .int value), ("type".toList, .str "Number".toList)]

/-- The form of `( 1 - 2 )` with all members reversed and one more in two of its
objects; in the inner one it is a type, which has no meaning there. -/
def reversedDifference : Json :=
  .obj [
    ("note".toList, .bool true),
    ("value".toList, .obj [
      ("type".toList, .null),
      ("right".toList, reversedNumber 2),
      ("operator".toList, .str "Minus".toList),
      ("left".toList, reversedNumber 1)]),
    ("type".toList, .str "Binary".toList)]

theorem Loosened.reversed
    {members mixed : List (Text × Json)} (others added : List (Text × Json))
    (hmixed : mixed = (others ++ added).reverse)
    (hnames : members.map Prod.fst = others.map Prod.fst)
    (hvalues : List.Forall₂ Loosened (members.map Prod.snd) (others.map Prod.snd))
    (hadded : ∀ member ∈ added, member.1 ∉ knownKeys members) :
    Loosened (.obj members) (.obj mixed) :=
  .object hnames hvalues hadded (hmixed ▸ List.reverse_perm _)

theorem loosened_reversedNumber
    (value : Int) :
    Loosened (Json.tagged "Number".toList (.int value)) (reversedNumber value) := by
  refine .reversed [("type".toList, .str "Number".toList), ("value".toList, .int value)] []
    rfl rfl ?_ (by simp)
  exact List.forall₂_same.mpr fun member _ => .same member

theorem loosened_reversedDifference :
    Loosened (Expr.binary .minus (.number 1) (.number 2)).toJson reversedDifference := by
  have hparts :
      Loosened
        (.obj [("left".toList, (Expr.number 1).toJson), ("operator".toList, Operator.minus.toJson),
          ("right".toList, (Expr.number 2).toJson)])
        (.obj [("type".toList, .null), ("right".toList, reversedNumber 2),
          ("operator".toList, .str "Minus".toList), ("left".toList, reversedNumber 1)]) := by
    refine .reversed
      [("left".toList, reversedNumber 1), ("operator".toList, .str "Minus".toList),
        ("right".toList, reversedNumber 2)] [("type".toList, .null)] rfl rfl ?_ ?_
    · exact .cons (loosened_reversedNumber 1)
        (.cons (.same _) (.cons (loosened_reversedNumber 2) .nil))
    · intro member hmember
      rw [List.mem_singleton.mp hmember]
      exact fun hknown => absurd hknown (by decide)
  refine .reversed [("type".toList, .str "Binary".toList), ("value".toList, _)]
    [("note".toList, .bool true)] rfl rfl (.cons (.same _) (.cons hparts .nil)) ?_
  intro member hmember
  rw [List.mem_singleton.mp hmember]
  decide

/-- The order of members and unknown members do not change what is decoded. -/
theorem decoders_undo_reversed :
    Expr.ofJson? reversedDifference = some (.binary .minus (.number 1) (.number 2)) :=
  (decoders_undo.2.2.1.loosened _ _ loosened_reversedDifference).trans
    (decoders_undo.2.2.1.exact _)

end Json
end InfixCalc
