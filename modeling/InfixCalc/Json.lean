import InfixCalc.Text.Blank

/-!
# JSON values

The members of an object keep their order.  A number is an integer, or keeps
its literal when it has a fraction, an exponent or the form `-0`.
-/

namespace InfixCalc

/-- A JSON value. -/
inductive Json where
  | null
  | bool (value : Bool)
  | int (value : Int)
  /-- A number that is not written as an integer. -/
  | real (literal : Text)
  | str (text : Text)
  | arr (elements : List Json)
  | obj (members : List (Text × Json))

namespace Json

/-- The value of the last member with a key: of several members with one key
the last counts. -/
def lookup? (key : Text) : List (Text × Json) → Option Json
  | [] => none
  | (name, value) :: rest =>
    match lookup? key rest with
    | some later => some later
    | none => if name = key then some value else none

theorem sizeOf_lookup?_lt
    {key : Text} {members : List (Text × Json)} {value : Json}
    (h : lookup? key members = some value) :
    sizeOf value < sizeOf members := by
  induction members with
  | nil =>
      simp [lookup?] at h
  | cons member rest ih =>
      obtain ⟨name, v⟩ := member
      rw [lookup?] at h
      split at h
      · rename_i later hlater
        have := ih (hlater.trans h)
        simp
        omega
      · split at h
        · cases h
          simp
          omega
        · cases h

end Json
end InfixCalc
