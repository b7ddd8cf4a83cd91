import InfixCalc.Json.Symbol

/-!
# Reading JSON

The second step of reading folds the symbols into a value.  A `Stage` says
what may come next, and the containers that are still open stand around it,
the innermost first, so that nesting needs no recursion and has no limit.
-/

namespace InfixCalc
namespace Json

/-- An open container with what it holds so far, the last part first. -/
inductive Frame where
  | array (held : List Json)
  /-- An object in which a key has been read. -/
  | object (held : List (Text × Json)) (key : Text)

/-- What may come next. -/
inductive Stage where
  /-- A value. -/
  | value (outer : List Frame)
  /-- A value, or the end of an array that is empty so far. -/
  | firstElement (outer : List Frame)
  /-- A comma or the end of an array. -/
  | afterElement (held : List Json) (outer : List Frame)
  /-- A key, or the end of an object that is empty so far. -/
  | firstKey (outer : List Frame)
  /-- A key. -/
  | key (held : List (Text × Json)) (outer : List Frame)
  /-- The colon behind a key. -/
  | colon (held : List (Text × Json)) (key : Text) (outer : List Frame)
  /-- A comma or the end of an object. -/
  | afterMember (held : List (Text × Json)) (outer : List Frame)
  /-- Nothing. -/
  | done (value : Json)

namespace Stage

/-- Goes on after a whole value. -/
def deliver (value : Json) (outer : List Frame) : Stage :=
  match outer with
  | [] => .done value
  | .array held :: rest => .afterElement (value :: held) rest
  | .object held name :: rest => .afterMember ((name, value) :: held) rest

/-- Reads a symbol where a value is expected. -/
def open? (outer : List Frame) (symbol : Symbol) : Option Stage :=
  match symbol with
  | .openArray => some (.firstElement outer)
  | .openObject => some (.firstKey outer)
  | .atom found => some (deliver found outer)
  | _ => none

/-- Reads one symbol. -/
def step? (stage : Stage) (symbol : Symbol) : Option Stage :=
  match stage, symbol with
  | .value outer, next => open? outer next
  | .firstElement outer, .closeArray => some (deliver (.arr []) outer)
  | .firstElement outer, next => open? (.array [] :: outer) next
  | .afterElement held outer, .comma => some (.value (.array held :: outer))
  | .afterElement held outer, .closeArray => some (deliver (.arr held.reverse) outer)
  | .firstKey outer, .closeObject => some (deliver (.obj []) outer)
  | .firstKey outer, .atom (.str name) => some (.colon [] name outer)
  | .key held outer, .atom (.str name) => some (.colon held name outer)
  | .colon held name outer, .colon => some (.value (.object held name :: outer))
  | .afterMember held outer, .comma => some (.key held outer)
  | .afterMember held outer, .closeObject => some (deliver (.obj held.reverse) outer)
  | _, _ => none

/-- The value, if nothing more is expected. -/
def result? (stage : Stage) : Option Json :=
  match stage with
  | .done found => some found
  | _ => none

end Stage

/-- The value that a list of symbols stands for. -/
def ofSymbols? (symbols : List Symbol) : Option Json :=
  (symbols.foldlM Stage.step? (.value [])).bind Stage.result?

/-- The value that a text stands for. -/
def read? (text : Text) : Option Json :=
  (Symbol.scan? text).bind ofSymbols?

end Json
end InfixCalc
