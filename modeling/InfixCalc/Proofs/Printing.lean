import InfixCalc.Proofs.Forest
import InfixCalc.Proofs.Passage
import InfixCalc.Proofs.Rereading

/-!
# Reading printed expressions

The text of an expression has every node in parentheses.  With spaces around
these its words are the tokens of the expression with every node as a group.
The pass comes out of such a group in the state in which it went in, with calls
that spell the expression.

One level of nodes is one level of parentheses.  If they do not fit, the pass
stops at the first parenthesis that is too deep; until then it has only read
whole operands, so the tree builder has refused nothing.

* `Expr.infixTokens` : the tokens of the text.
* `Expr.ofLine_setOff_render` : they are read.
* `Expr.passes_infixTokens` : a pass through them, if their parentheses fit.
* `Expr.exists_passes_of_deep` : the pass up to the parenthesis that is too deep.
* `Expr.ofInfix_printed` : the expression is read back if its parentheses fit.
-/

namespace InfixCalc

namespace Text

/-- The text with a space on either side of every parenthesis. -/
def setOff (text : Text) : Text :=
  text.flatMap fun c => if c = '(' ∨ c = ')' then [' ', c, ' '] else [c]

@[simp] theorem setOff_nil :
    setOff [] = [] := by
  rfl

@[simp] theorem setOff_append
    (first second : Text) :
    setOff (first ++ second) = setOff first ++ setOff second := by
  exact List.flatMap_append

theorem setOff_cons_of_parenthesis
    {c : Char}
    (hc : c = '(' ∨ c = ')')
    (rest : Text) :
    setOff (c :: rest) = ' ' :: c :: ' ' :: setOff rest := by
  rw [setOff, List.flatMap_cons, if_pos hc]
  rfl

theorem setOff_cons
    {c : Char}
    (hopening : c ≠ '(')
    (hclosing : c ≠ ')')
    (rest : Text) :
    setOff (c :: rest) = c :: setOff rest := by
  rw [setOff, List.flatMap_cons, if_neg (by simp [hopening, hclosing])]
  rfl

theorem setOff_eq_self
    {text : Text}
    (hopening : '(' ∉ text)
    (hclosing : ')' ∉ text) :
    setOff text = text := by
  induction text with
  | nil =>
      rfl
  | cons c rest ih =>
      rw [List.mem_cons, not_or] at hopening hclosing
      rw [setOff_cons (Ne.symm hopening.1) (Ne.symm hclosing.1), ih hopening.2 hclosing.2]

end Text

namespace Operator

theorem symbol_inked
    (op : Operator) :
    Text.isBlank op.symbol = false := by
  cases op <;> rfl

theorem symbol_ne_parenthesis
    (op : Operator) :
    op.symbol ≠ '(' ∧ op.symbol ≠ ')' := by
  cases op <;> decide

end Operator

namespace Token

/-- The text of an operand has no parentheses. -/
theorem setOff_ofValue
    (value : Value) :
    Text.setOff (Text.ofValue value) = Text.ofValue value := by
  obtain ⟨c, digits, htext, hc, hdigits⟩ := ofValue_eq_cons value
  have hnone : ∀ mark : Char, mark.isDigit = false → mark ≠ '-' →
      mark ∉ Text.ofValue value := by
    intro mark hmark hminus hmem
    rw [htext, List.mem_cons] at hmem
    rcases hmem with rfl | hmem
    · rcases hc with hc | hc
      · rw [hmark] at hc
        cases hc
      · exact hminus hc.1
    · rw [hdigits mark hmem] at hmark
      cases hmark
  exact Text.setOff_eq_self (hnone '(' rfl (by decide)) (hnone ')' rfl (by decide))

end Token

namespace Expr

open Parse

/-- The number of operators on a longest path from the root to a leaf. -/
def operatorLevels : Expr → Nat
  | number _ => 0
  | binary _ left right => 1 + max left.operatorLevels right.operatorLevels

theorem levels_eq
    (tree : Expr) :
    tree.levels = tree.operatorLevels + 1 := by
  induction tree with
  | number value =>
      rfl
  | binary op left right ihLeft ihRight =>
      rw [levels, operatorLevels, ihLeft, ihRight]
      omega

/-- Where the parentheses fit, the tree is far from too deep. -/
theorem levels_le_of_fits
    {tree : Expr}
    (hfits : tree.operatorLevels ≤ maxNesting) :
    tree.levels ≤ maxLevels := by
  rw [maxNesting] at hfits
  rw [levels_eq, maxLevels]
  omega

/-- The tokens of the text: every node is a group. -/
def infixTokens : Expr → List Token
  | number value => [.number value]
  | binary op left right =>
    .opening :: (left.infixTokens ++ .operator op :: right.infixTokens) ++ [.closing]

theorem bottom_notMem_infixTokens
    (tree : Expr) :
    .bottom ∉ tree.infixTokens := by
  induction tree with
  | number value =>
      simp [infixTokens]
  | binary op left right ihLeft ihRight =>
      simp [infixTokens, ihLeft, ihRight]

theorem setOff_render_binary
    (op : Operator) (left right : Expr) :
    Text.setOff (binary op left right).render =
      ' ' :: '(' :: ' ' :: (Text.setOff left.render ++ ' ' :: op.symbol :: ' ' ::
        (Text.setOff right.render ++ [' ', ')', ' '])) := by
  have hsymbol := op.symbol_ne_parenthesis
  rw [render, List.cons_append, List.cons_append, Text.setOff_cons_of_parenthesis (.inl rfl)]
  simp [Text.setOff_cons, Text.setOff_cons_of_parenthesis, hsymbol.1, hsymbol.2]

example :
    Text.setOff (binary .minus (.number 1) (.number (-5))).render = " ( 1 - -5 ) ".toList := by
  decide

/-- The words of the text are its tokens. -/
theorem words_setOff_render
    (tree : Expr) :
    Text.words (Text.setOff tree.render) = tree.infixTokens.map Token.render := by
  induction tree with
  | number value =>
      rw [render, Token.setOff_ofValue]
      exact (Token.isWord_render (.number value)).words_eq
  | binary op left right ihLeft ihRight =>
      have hinked := op.symbol_inked
      rw [setOff_render_binary, ← List.nil_append (' ' :: '(' :: _),
        Text.words_append_mark rfl, Text.words_append_mark hinked, Text.words_append_mark rfl,
        ihLeft, ihRight, infixTokens]
      simp [Token.render, Operator.render]

theorem ofLine_setOff_render
    (tree : Expr) :
    Token.ofLine (Text.setOff tree.render) = .ok tree.infixTokens := by
  rw [Token.ofLine, words_setOff_render]
  exact Token.mapM_ofWord_render tree.bottom_notMem_infixTokens

/-- Where its parentheses fit, an expression is passed with calls that spell it,
and nothing is left waiting. -/
theorem passes_infixTokens
    (tree : Expr) {inner : List Operator} {outer : List (List Operator)}
    (hfits : outer.length + tree.operatorLevels ≤ maxNesting) :
    ∃ made,
      Pending.Passes ⟨inner, outer⟩ tree.infixTokens made ⟨inner, outer⟩ ∧
      Call.tokens made = tree.toRpn := by
  induction tree generalizing inner outer with
  | number value =>
      exact ⟨[.operand value], .number value (.nil _), rfl⟩
  | binary op left right ihLeft ihRight =>
      rw [operatorLevels] at hfits
      have hinner : (inner :: outer).length = outer.length + 1 := List.length_cons
      obtain ⟨madeLeft, hleft, hrpnLeft⟩ :=
        @ihLeft [] (inner :: outer) (by omega)
      obtain ⟨madeRight, hright, hrpnRight⟩ :=
        @ihRight [op] (inner :: outer) (by omega)
      -- the operator finds nothing waiting inside the group, and its closing reduces it
      have hinside := hleft.append (.operator op hright)
      refine ⟨_, .group (by omega) hinside, ?_⟩
      simp [toRpn, hrpnLeft, hrpnRight, Pending.giving]

/-- If the parentheses do not fit, the pass comes to one that is too deep.
Before it, whole operands were put onto the stack, and the tree builder refused
nothing. -/
theorem exists_passes_of_deep
    (tree : Expr) {inner : List Operator} {outer : List (List Operator)}
    (hdepth : outer.length ≤ maxNesting)
    (hdeep : maxNesting < outer.length + tree.operatorLevels) :
    ∃ before rest made after,
      tree.infixTokens = before ++ .opening :: rest ∧
      Pending.Passes ⟨inner, outer⟩ before made after ∧
      after.depth = maxNesting ∧
      ∀ below, ∃ subtrees, treeBuilder.attemptAll below made = .ok subtrees := by
  induction tree generalizing inner outer with
  | number value =>
      rw [operatorLevels] at hdeep
      omega
  | binary op left right ihLeft ihRight =>
      rw [operatorLevels] at hdeep
      have hinner : (inner :: outer).length = outer.length + 1 := List.length_cons
      by_cases hfull : outer.length = maxNesting
      · exact ⟨[], _, [], _, rfl, .nil _, hfull, fun below => ⟨below, rfl⟩⟩
      · by_cases hleft : maxNesting < outer.length + 1 + left.operatorLevels
        · obtain ⟨before, rest, made, after, htokens, hpasses, hafter, haccepted⟩ :=
            @ihLeft [] (inner :: outer) (by omega) hleft
          refine ⟨.opening :: before, rest ++ .operator op :: right.infixTokens ++ [.closing],
            made, after, ?_, .opening hfull hpasses, hafter, haccepted⟩
          simp [infixTokens, htokens]
        · have hfits : left.operatorLevels ≤ maxNesting := by
            omega
          obtain ⟨madeLeft, hpassesLeft, hrpnLeft⟩ :=
            @passes_infixTokens left [] (inner :: outer) (by omega)
          obtain ⟨before, rest, made, after, htokens, hpasses, hafter, haccepted⟩ :=
            @ihRight [op] (inner :: outer) (by omega) (by omega)
          have hinside := hpassesLeft.append (.operator op hpasses)
          refine ⟨.opening :: (left.infixTokens ++ .operator op :: before), rest ++ [.closing],
            madeLeft ++ made, after, ?_, .opening hfull hinside, hafter, ?_⟩
          · simp [infixTokens, htokens]
          · intro below
            rw [Builder.attemptAll_append,
              TreeBuilder.attemptAll_of_toRpn left below hrpnLeft,
              if_pos (levels_le_of_fits hfits)]
            exact haccepted _

theorem ofInfix_infixTokens_of_fits
    (tree : Expr)
    (hfits : tree.operatorLevels ≤ maxNesting) :
    Expr.ofInfix tree.infixTokens = .ok tree ∧
      Rpn.ofInfix tree.infixTokens = .ok tree.toRpn := by
  obtain ⟨made, hpasses, hmade⟩ := @passes_infixTokens tree [] [] (by simpa using hfits)
  have hscan := hpasses.bracketError?_append []
  have hcalls := hpasses.calls_append []
  rw [List.append_nil] at hscan hcalls
  have htokens : Call.tokens (Pending.start.calls tree.infixTokens) = tree.toRpn := by
    rw [Pending.start, hcalls]
    simpa [Pending.trailingReductions] using hmade
  obtain ⟨hrpn, htree⟩ := ofInfix_of_toRpn hscan htokens
  rw [if_pos (levels_le_of_fits hfits)] at htree
  exact ⟨htree, hrpn⟩

theorem ofInfix_infixTokens_of_deep
    (tree : Expr)
    (hdeep : maxNesting < tree.operatorLevels) :
    Expr.ofInfix tree.infixTokens = .error (.nestingTooDeep maxNesting) ∧
      Rpn.ofInfix tree.infixTokens = .error (.nestingTooDeep maxNesting) := by
  obtain ⟨before, rest, made, ⟨inner, outer⟩, htokens, hpasses, hafter, haccepted⟩ :=
    @exists_passes_of_deep tree [] [] (Nat.zero_le maxNesting) (by simpa using hdeep)
  obtain ⟨subtrees, hsubtrees⟩ := haccepted []
  have hscan : bracketError? 0 tree.infixTokens = some (.nestingTooDeep maxNesting) := by
    have hopening := hpasses.bracketError?_append (.opening :: rest)
    rw [← htokens, bracketError?] at hopening
    exact hopening.trans (if_pos hafter)
  have hcalls : Pending.start.calls tree.infixTokens = made := by
    have hfull : outer.length = maxNesting := hafter
    rw [htokens, Pending.start, hpasses.calls_append, Pending.calls_opening, if_pos hfull,
      List.append_nil]
  constructor
  · rw [ofInfix_eq_attemptAll, hcalls, hsubtrees, hscan]
    rfl
  · rw [ofInfix_eq_tokens, hscan]

/-- The text of an expression, with spaces around its parentheses, is always
read as tokens.  With at most 18 levels of operators these have the tree and its
sequence again; with more both are refused. -/
theorem ofInfix_printed
    (tree : Expr) :
    ∃ tokens,
      Token.ofLine (Text.setOff tree.render) = .ok tokens ∧
      if tree.operatorLevels ≤ 18 then
        Expr.ofInfix tokens = .ok tree ∧ Rpn.ofInfix tokens = .ok tree.toRpn
      else
        Expr.ofInfix tokens = .error (.nestingTooDeep 18) ∧
          Rpn.ofInfix tokens = .error (.nestingTooDeep 18) := by
  refine ⟨tree.infixTokens, ofLine_setOff_render tree, ?_⟩
  split
  next hfits =>
      exact tree.ofInfix_infixTokens_of_fits hfits
  next hdeep =>
      exact tree.ofInfix_infixTokens_of_deep (Nat.not_le.mp hdeep)

end Expr
end InfixCalc
