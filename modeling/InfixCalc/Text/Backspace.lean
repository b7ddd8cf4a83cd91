import InfixCalc.Text.Bytes
import InfixCalc.Text.Cluster

/-!
# Backspaces

A line that was typed ahead may hold backspaces.  Each one takes back the last
cluster before it that is still there, and does nothing if there is none.
Everything else is kept, so a text without backspaces stays as it is.

A draft remembers the size of each cluster in a single byte, and that many
bytes are taken back.  Of a cluster of 256 bytes or more this is only a part,
which may begin inside a character; then the text has no edited form.

* `Text.applyBackspaces?` : a text as it was edited.
-/

namespace InfixCalc
namespace Text

/-- A text while it is edited: its characters, last one first, and the sizes
of its clusters, last one first. -/
structure Draft where
  written : Text
  sizes : List UInt8

namespace Draft

/-- A draft with nothing in it. -/
def empty : Draft := ⟨[], []⟩

/-- Adds a cluster. -/
def add (draft : Draft) (cluster : Text) : Draft :=
  ⟨cluster.reverse ++ draft.written, UInt8.ofNat (byteLength cluster) :: draft.sizes⟩

/-- Takes back the last cluster. -/
def takeBack? (draft : Draft) : Option Draft :=
  match draft.sizes with
  | [] => some draft
  | size :: earlier =>
    (dropBytes? size.toNat draft.written).map fun left => ⟨left, earlier⟩

/-- Carries on with the next cluster. -/
def push? (draft : Draft) (cluster : Text) : Option Draft :=
  if cluster = ['\x08'] then draft.takeBack? else some (draft.add cluster)

/-- The edited text. -/
def toText (draft : Draft) : Text :=
  draft.written.reverse

end Draft

/-- A text as it was edited. -/
def applyBackspaces? (text : Text) : Option Text :=
  ((clusters text).foldlM Draft.push? .empty).map Draft.toText

namespace Draft

theorem toText_of_foldlM
    {parts : List Text}
    (h : ['\x08'] ∉ parts)
    (draft : Draft) :
    (parts.foldlM push? draft).map toText =
      some (draft.toText ++ parts.flatten) := by
  induction parts generalizing draft with
  | nil =>
    simp
  | cons cluster rest ih =>
    have hcluster : cluster ≠ ['\x08'] := by
      intro heq
      exact h (by simp [heq])
    have hrest : ['\x08'] ∉ rest := by
      intro hmem
      exact h (List.mem_cons_of_mem _ hmem)
    simp [push?, hcluster, ih hrest, toText, add]

end Draft

/-- A text without backspaces stays as it is. -/
theorem applyBackspaces?_of_not_mem
    {text : Text}
    (h : '\x08' ∉ text) :
    text.applyBackspaces? = some text := by
  have hparts : ['\x08'] ∉ clusters text := by
    intro hmem
    apply h
    rw [← flatten_clusters text]
    exact List.mem_flatten_of_mem hmem (by simp)
  simp [applyBackspaces?, Draft.toText_of_foldlM hparts, flatten_clusters,
    Draft.toText, Draft.empty]

end Text
end InfixCalc
