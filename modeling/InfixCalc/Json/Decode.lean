import InfixCalc.Expr
import InfixCalc.Json

/-!
# Values of JSON forms

Decoding accepts more than encoding writes: the members of an object may stand
in any order and among others, an operator or a kind may be the only key of an
object that holds null, an object with a type and a value may be the list of
the two if the type is a string, and the parts of a node may be the list of the
three.
-/

namespace InfixCalc
namespace Json

/-- A name: a string, or the only key of an object that holds null. -/
def name? : Json → Option Text
  | .str name => some name
  | .obj [(name, .null)] => some name
  | _ => none

/-- The kind and the value of an object with a type, or of a list of the two. -/
def tagged? : Json → Option (Text × Option Json)
  | .obj members =>
    (lookup? "type".toList members).bind fun kind =>
      kind.name?.map fun name => (name, lookup? "value".toList members)
  | .arr [.str name, value] => some (name, some value)
  | _ => none

/-- The parts of a node: left operand, operator and right operand. -/
def parts? : Json → Option (Json × Json × Json)
  | .obj members =>
    (lookup? "left".toList members).bind fun left =>
      (lookup? "operator".toList members).bind fun op =>
        (lookup? "right".toList members).map fun right => (left, op, right)
  | .arr [left, op, right] => some (left, op, right)
  | _ => none

theorem sizeOf_of_tagged?
    {form value : Json} {kind : Text}
    (h : form.tagged? = some (kind, some value)) :
    sizeOf value < sizeOf form := by
  unfold tagged? at h
  split at h
  · rename_i members
    obtain ⟨kindForm, _, h⟩ := Option.bind_eq_some_iff.1 h
    obtain ⟨name, _, h⟩ := Option.map_eq_some_iff.1 h
    have := sizeOf_lookup?_lt (Prod.mk.inj h).2
    simp
    omega
  · cases h
    simp
    omega
  · cases h

theorem sizeOf_of_parts?
    {form left op right : Json}
    (h : form.parts? = some (left, op, right)) :
    sizeOf left < sizeOf form ∧ sizeOf right < sizeOf form := by
  unfold parts? at h
  split at h
  · rename_i members
    obtain ⟨l, hl, h⟩ := Option.bind_eq_some_iff.1 h
    obtain ⟨o, _, h⟩ := Option.bind_eq_some_iff.1 h
    obtain ⟨r, hr, h⟩ := Option.map_eq_some_iff.1 h
    cases h
    have := sizeOf_lookup?_lt hl
    have := sizeOf_lookup?_lt hr
    simp
    omega
  · cases h
    simp
    omega
  · cases h

/-- An integer in the range of operands. -/
def value? : Json → Option Value
  | .int value => Value.ofInt? value
  | _ => none

end Json

/-- The operator of a form. -/
def Operator.ofJson? (form : Json) : Option Operator :=
  form.name?.bind fun name => Operator.all.find? fun op => op.name = name

namespace Token

/-- The token of a kind and a value; a parenthesis or the bottom mark may have
the value null. -/
def ofTagged? (kind : Text) (value? : Option Json) : Option Token :=
  if kind = "Operator".toList then
    value?.bind fun value => (Operator.ofJson? value).map operator
  else if kind = "Number".toList then
    value?.bind fun value => value.value?.map number
  else
    match value? with
    | none | some .null =>
      [opening, closing, bottom].find? fun token => token.kindName = kind
    | _ => none

/-- The token of a form. -/
def ofJson? (form : Json) : Option Token :=
  form.tagged?.bind fun tagged => ofTagged? tagged.1 tagged.2

end Token

/-- The expression of a form. -/
def Expr.ofJson? (form : Json) : Option Expr :=
  match htagged : form.tagged? with
  | some (kind, some value) =>
    if kind = "Number".toList then
      value.value?.map .number
    else if kind = "Binary".toList then
      match hparts : value.parts? with
      | some (left, op, right) =>
        have := Json.sizeOf_of_tagged? htagged
        have := Json.sizeOf_of_parts? hparts
        (Operator.ofJson? op).bind fun decoded =>
          (Expr.ofJson? left).bind fun atLeft =>
            (Expr.ofJson? right).map fun atRight =>
              .binary decoded atLeft atRight
      | none => none
    else
      none
  | _ => none
  termination_by sizeOf form
  decreasing_by all_goals omega

/-- The sequence of a form. -/
def Rpn.ofJson? : Json → Option Rpn
  | .arr forms => forms.mapM Token.ofJson?
  | _ => none

end InfixCalc
