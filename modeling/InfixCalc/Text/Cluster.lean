import InfixCalc.Text.Blank
import InfixCalc.Text.Cluster.Ranges

/-!
# Grapheme clusters

A text is cut into extended grapheme clusters, which are what a reader takes
for single characters: a letter with its marks, a syllable, a flag, a joined
emoji.  A cut between two characters depends on the class of the next one and
on what stands before it, of which a `Context` keeps as much as the rules ask
for.

* `Cluster.Class.of` : the class of a character.
* `Cluster.joins` : whether there is no cut before a character.
* `Text.clusters` : the clusters of a text.
-/

namespace InfixCalc
namespace Text
namespace Cluster

/-- The classes of characters that the rules tell apart. -/
inductive Class where
  | carriageReturn
  | lineFeed
  | control
  | extend
  /-- An extending character that links consonants. -/
  | linker
  /-- The zero-width non-joiner: it extends, and ends a conjunct. -/
  | nonJoiner
  /-- The zero-width joiner. -/
  | joiner
  | spacingMark
  | prepend
  | regionalIndicator
  | leading
  | vowel
  | trailing
  /-- A whole syllable that may get a vowel or a trailing consonant. -/
  | openSyllable
  /-- A whole syllable that may get a trailing consonant. -/
  | closedSyllable
  | consonant
  | pictograph
  | other
  deriving DecidableEq, Repr

namespace Class

/-- The ranges of the classes that are looked up in them. -/
def tables : List (Class × List (Nat × Nat)) :=
  [(control, controlRanges), (extend, extendRanges), (linker, linkerRanges),
   (spacingMark, spacingRanges), (consonant, consonantRanges),
   (pictograph, pictographRanges), (prepend, prependRanges),
   (leading, leadingRanges), (vowel, vowelRanges), (trailing, trailingRanges)]

/-- The class of a whole syllable: those without a trailing consonant stand
twenty-eight apart. -/
def ofSyllable (code : Nat) : Class :=
  if (code - 0xAC00) % 28 = 0 then openSyllable else closedSyllable

/-- The class of a code point. -/
def ofCode (code : Nat) : Class :=
  if 0x20 ≤ code ∧ code < 0x7F then other
  else if code = 0x0D then carriageReturn
  else if code = 0x0A then lineFeed
  else if code = 0x200C then nonJoiner
  else if code = 0x200D then joiner
  else if 0x1F1E6 ≤ code ∧ code ≤ 0x1F1FF then regionalIndicator
  else if 0xAC00 ≤ code ∧ code ≤ 0xD7A3 then ofSyllable code
  else
    match tables.find? fun table => inRanges table.2 code with
    | some table => table.1
    | none => other

/-- The class of a character. -/
def of (c : Char) : Class :=
  ofCode c.toNat

end Class

/-- How far a conjunct has been read: not begun, a consonant with extending
characters behind it, or one with a linker among them. -/
inductive Conjunct where
  | none
  | consonant
  | linked
  deriving DecidableEq, Repr

/-- What stands before a place between two characters of a text. -/
structure Context where
  last : Class
  /-- Whether an odd number of regional indicators stands directly before. -/
  oddIndicators : Bool
  /-- Whether a pictograph stands before, with extending characters only
  between it and a last joiner. -/
  pictographJoined : Bool
  /-- Whether a pictograph with extending characters only stands before. -/
  pictographExtended : Bool
  conjunct : Conjunct
  deriving DecidableEq, Repr

namespace Context

/-- Whether a class extends the character before it without joining. -/
def isExtending : Class → Bool
  | .extend | .linker | .nonJoiner => true
  | _ => false

/-- The conjunct after one more character. -/
def nextConjunct (conjunct : Conjunct) (next : Class) : Conjunct :=
  match next, conjunct with
  | .consonant, _ => .consonant
  | .linker, .consonant => .linked
  | .linker, earlier | .extend, earlier | .joiner, earlier => earlier
  | _, _ => .none

/-- The context after a first character. -/
def first (next : Class) : Context where
  last := next
  oddIndicators := next = .regionalIndicator
  pictographJoined := false
  pictographExtended := next = .pictograph
  conjunct := nextConjunct .none next

/-- The context after one more character. -/
def push (context : Context) (next : Class) : Context where
  last := next
  oddIndicators := next = .regionalIndicator && !context.oddIndicators
  pictographJoined := next = .joiner && context.pictographExtended
  pictographExtended :=
    next = .pictograph || isExtending next && context.pictographExtended
  conjunct := nextConjunct context.conjunct next

end Context

/-- Whether a class breaks on both sides. -/
def isBreaking : Class → Bool
  | .carriageReturn | .lineFeed | .control => true
  | _ => false

/-- Whether the parts of a syllable go together. -/
def joinsSyllable : Class → Class → Bool
  | .leading, .leading | .leading, .vowel | .leading, .openSyllable
  | .leading, .closedSyllable => true
  | .openSyllable, .vowel | .openSyllable, .trailing => true
  | .vowel, .vowel | .vowel, .trailing => true
  | .closedSyllable, .trailing | .trailing, .trailing => true
  | _, _ => false

/-- Whether there is no cut between what stands before and the next character.
Line endings stay whole and controls stand alone; then syllables, extending
characters, spacing marks and prepended characters, conjuncts, joined
pictographs, and pairs of regional indicators. -/
def joins (before : Context) (next : Class) : Bool :=
  if before.last = .carriageReturn ∧ next = .lineFeed then
    true
  else if isBreaking before.last || isBreaking next then
    false
  else
    joinsSyllable before.last next
      || Context.isExtending next || next = .joiner || next = .spacingMark
      || before.last = .prepend
      || next = .consonant && before.conjunct = .linked
      || next = .pictograph && before.pictographJoined
      || next = .regionalIndicator && before.oddIndicators

/-- The clusters of a text after the characters `opened` of a cluster that has
not ended yet, last character first. -/
def clustersFrom (opened : Text) (context : Context) : Text → List Text
  | [] => [opened.reverse]
  | c :: rest =>
    if joins context (Class.of c) then
      clustersFrom (c :: opened) (context.push (Class.of c)) rest
    else
      opened.reverse :: clustersFrom [c] (.first (Class.of c)) rest

theorem flatten_clustersFrom
    (opened : Text)
    (context : Context)
    (text : Text) :
    (clustersFrom opened context text).flatten = opened.reverse ++ text := by
  induction text generalizing opened context with
  | nil =>
    simp [clustersFrom]
  | cons c rest ih =>
    rw [clustersFrom]
    split <;> simp [ih]

end Cluster

/-- The extended grapheme clusters of a text. -/
def clusters : Text → List Text
  | [] => []
  | c :: rest => Cluster.clustersFrom [c] (.first (Cluster.Class.of c)) rest

/-- The clusters make up the text. -/
theorem flatten_clusters (text : Text) : (clusters text).flatten = text := by
  cases text with
  | nil =>
    rfl
  | cons c rest =>
    simp [clusters, Cluster.flatten_clustersFrom]

end Text
end InfixCalc
