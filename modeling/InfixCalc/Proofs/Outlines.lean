import InfixCalc.Expr.Outline
import InfixCalc.Proofs.TokenTexts
import InfixCalc.Proofs.Visits

/-!
# Reading outlines

An outline is put together from the leaves up, and whole blocks of lines are indented
at every level.  Read from the top, it has one line for every node and leaf, in Polish
order, an operator before its operands, and each is indented as deep as it stands in
the tree.  The words of an outline are its tokens, and tokens in Polish order belong
to a single tree, so the outline tells which tree it is, even without indentation.

* `Expr.placed` : the nodes and leaves in Polish order, with their depths.
* `Expr.map_outlineLines` : every line stands for one of them.
* `Expr.ofLine_outline` : the tokens of an outline.
* `Expr.polish_append_inj` : tokens in Polish order belong to a single tree.
* `Expr.outline_faithful` : what the lines of an outline are, and that they determine
  the tree.
-/

namespace InfixCalc

namespace Text

theorem joinWith_eq_intercalate
    (separator : Text) (parts : List Text) :
    joinWith separator parts = separator.intercalate parts := by
  induction parts with
  | nil =>
      rfl
  | cons part rest ih =>
      cases rest with
      | nil =>
          exact List.intercalate_singleton.symm
      | cons next rest =>
          rw [joinWith, ih, List.intercalate_cons_cons]

/-- Lines without line feeds that are written below each other are the lines of the
text, if there are any. -/
theorem splitOn_unlines
    {parts : List Text}
    (hparts : ∀ part ∈ parts, '\n' ∉ part) (hne : parts ≠ []) :
    (unlines parts).splitOn '\n' = parts := by
  rw [unlines, joinWith_eq_intercalate, List.splitOn_intercalate '\n' hparts hne]

theorem feed_notMem_spaces_append
    {word : Text}
    (hword : IsWord word) (count : Nat) :
    '\n' ∉ List.replicate count ' ' ++ word := by
  intro hfeed
  rcases List.mem_append.mp hfeed with hfeed | hfeed
  · cases List.eq_of_mem_replicate hfeed
  · cases hword.inked '\n' hfeed

end Text

namespace Expr

/-- The tokens of a tree in Polish order: an operator, the left operand, the right
one. -/
def polish : Expr → List Token
  | number value => [.number value]
  | binary op left right => .operator op :: (left.polish ++ right.polish)

/-- The tokens in Polish order with their depths, when the tree itself is at some
depth. -/
def placed (depth : Nat) : Expr → List (Nat × Token)
  | number value => [(depth, .number value)]
  | binary op left right =>
    (depth, .operator op) :: (left.placed (depth + 1) ++ right.placed (depth + 1))

/-- The line of a token at some depth: as many indents, and the text of the token. -/
def lineOf (indent : Nat) (place : Nat × Token) : Text :=
  List.replicate (place.1 * indent) ' ' ++ place.2.render

theorem placed_ne_nil
    (tree : Expr) (depth : Nat) :
    tree.placed depth ≠ [] := by
  cases tree <;> exact List.cons_ne_nil _ _

theorem map_snd_placed
    (tree : Expr) (depth : Nat) :
    (tree.placed depth).map Prod.snd = tree.polish := by
  induction tree generalizing depth with
  | number value =>
      rfl
  | binary op left right ihLeft ihRight =>
      rw [placed, List.map_cons, List.map_append, ihLeft, ihRight]
      rfl

/-- Polish order and reverse Polish order have the same tokens. -/
theorem polish_perm_toRpn
    (tree : Expr) :
    tree.polish.Perm tree.toRpn := by
  induction tree with
  | number value =>
      exact .refl _
  | binary op left right ihLeft ihRight =>
      have hboth : (left.polish ++ right.polish).Perm (left.toRpn ++ right.toRpn) :=
        ihLeft.append ihRight
      exact (hboth.cons _).trans (List.perm_append_singleton _ _).symm

theorem bottom_notMem_polish
    (tree : Expr) :
    .bottom ∉ tree.polish := by
  induction tree with
  | number value =>
      simp [polish]
  | binary op left right ihLeft ihRight =>
      simp [polish, ihLeft, ihRight]

/-- A tree at the start of tokens in Polish order, and the tokens behind it, are
determined by the tokens. -/
theorem polish_append_inj
    {tree other : Expr} {rest more : List Token}
    (hequal : tree.polish ++ rest = other.polish ++ more) :
    tree = other ∧ rest = more := by
  induction tree generalizing other rest more with
  | number value =>
      cases other with
      | number second =>
          cases hequal
          exact ⟨rfl, rfl⟩
      | binary op left right =>
          cases hequal
  | binary op left right ihLeft ihRight =>
      cases other with
      | number second =>
          cases hequal
      | binary next first second =>
          simp only [polish, List.cons_append, List.append_assoc] at hequal
          obtain ⟨hop, hboth⟩ := List.cons.inj hequal
          cases hop
          -- the left subtree is the first one of what is left, then the right one is
          obtain ⟨rfl, hright⟩ := ihLeft hboth
          obtain ⟨rfl, hrest⟩ := ihRight hright
          exact ⟨rfl, hrest⟩

theorem polish_inj
    {tree other : Expr}
    (hequal : tree.polish = other.polish) :
    tree = other := by
  have happend : tree.polish ++ [] = other.polish ++ [] := by
    rw [hequal]
  exact (polish_append_inj happend).1

/-- The block of a subtree, indented as deep as the subtree stands, has a line for
each of its tokens. -/
theorem map_outlineLines
    (tree : Expr) (indent depth : Nat) :
    (tree.outlineLines indent).map (List.replicate (depth * indent) ' ' ++ ·) =
      (tree.placed depth).map (lineOf indent) := by
  induction tree generalizing depth with
  | number value =>
      rfl
  | binary op left right ihLeft ihRight =>
      have hdeeper :
          ((List.replicate (depth * indent) ' ' ++ ·) ∘ (List.replicate indent ' ' ++ ·)) =
            (List.replicate ((depth + 1) * indent) ' ' ++ · : Text → Text) := by
        funext line
        rw [Function.comp_apply, ← List.append_assoc, List.replicate_append_replicate,
          Nat.add_one_mul]
      rw [outlineLines, List.map_cons, List.map_map, hdeeper, List.map_append, ihLeft, ihRight,
        placed, List.map_cons, List.map_append]
      rfl

theorem outlineLines_eq
    (tree : Expr) (indent : Nat) :
    tree.outlineLines indent = (tree.placed 0).map (lineOf indent) := by
  rw [← map_outlineLines, Nat.zero_mul]
  exact (List.map_id _).symm

/-- The tokens of an outline are those of the tree, in Polish order. -/
theorem ofLine_outline
    (tree : Expr) (indent : Nat) :
    Token.ofLine (tree.outline indent) = .ok tree.polish := by
  have hline : ∀ place : Nat × Token, Text.words (lineOf indent place) = [place.2.render] :=
    fun place => Text.words_spaces_append (Token.isWord_render place.2) _
  have hwords : Text.words (tree.outline indent) = tree.polish.map Token.render := by
    rw [outline, Text.words_unlines, outlineLines_eq, List.flatMap_map, ← map_snd_placed tree 0,
      List.map_map, List.map_eq_flatMap]
    simp only [hline, Function.comp_apply]
  rw [Token.ofLine, hwords, Token.mapM_ofWord_render tree.bottom_notMem_polish]

/-- The visitor that puts an outline together. -/
def outliner (indent : Nat) : Visitor Empty Unit (List Text) where
  leaf value := pure [Text.ofValue value]
  node op left right := pure
    (op.render :: (left ++ right).map (List.replicate indent ' ' ++ ·))

theorem accept_outliner
    (tree : Expr) (indent : Nat) :
    (outliner indent).accept tree () = .ok (tree.outlineLines indent) () := by
  induction tree with
  | number value =>
      rfl
  | binary op left right ihLeft ihRight =>
      exact (run_bind_of_ok ihLeft _).trans (run_bind_of_ok ihRight _)

/-- For every tree and every width of indents, none included, the outline has one line
for each token of the tree, in Polish order, which has as many indents as the token is
deep and then its text.  No other tree has this outline. -/
theorem outline_faithful
    (tree : Expr) (indent : Nat) :
    (tree.outline indent).splitOn '\n' = (tree.placed 0).map (lineOf indent) ∧
    ((tree.placed 0).map Prod.snd).Perm tree.toRpn ∧
    ∀ other : Expr, other.outline indent = tree.outline indent ↔ other = tree := by
  refine ⟨?_, ?_, ?_⟩
  · rw [outline, outlineLines_eq, Text.splitOn_unlines]
    · intro line hline
      obtain ⟨place, -, rfl⟩ := List.mem_map.mp hline
      exact Text.feed_notMem_spaces_append (Token.isWord_render place.2) _
    · intro hnone
      exact tree.placed_ne_nil 0 (List.map_eq_nil_iff.mp hnone)
  · rw [map_snd_placed]
    exact tree.polish_perm_toRpn
  · intro other
    constructor
    · intro hequal
      have htokens : Except.ok other.polish = (.ok tree.polish : Except LexError (List Token)) := by
        rw [← ofLine_outline other indent, hequal, ofLine_outline]
      exact polish_inj (Except.ok.inj htokens)
    · rintro rfl
      rfl

/-- Without indents a minus and a negative number are told apart. -/
example :
    (Expr.binary .minus (.number (-1)) (.number 2)).outline 0 = "-\n-1\n2".toList := by
  decide

end Expr
end InfixCalc
