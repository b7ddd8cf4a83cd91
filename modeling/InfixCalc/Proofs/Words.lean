import InfixCalc.Text.Words

/-!
# Words and blanks

A blank ends a word wherever it stands, so the words of a text can be read part
by part.  Words that are written with single spaces are read back as they are.

* `words_append_blank` : the words before and after a blank.
* `words_append_gap` : the words before and after any number of blanks.
* `words_unwords` : words are read back.
* `words_unlines` : the words of lines that are written below each other.
* `words_trim` : blanks at the ends do not matter.
* `allBlank_iff_words_eq_nil` : only a text of blanks has no words.
-/

namespace InfixCalc
namespace Text

/-- A word: it has characters, and none of them is blank. -/
structure IsWord (word : Text) : Prop where
  nonempty : word ≠ []
  inked : ∀ c ∈ word, isBlank c = false

theorem isWord_singleton
    {c : Char}
    (hinked : isBlank c = false) :
    IsWord [c] := by
  refine ⟨List.cons_ne_nil c [], ?_⟩
  intro d hd
  rw [List.mem_singleton.mp hd]
  exact hinked

@[simp] theorem isBlank_space :
    isBlank ' ' = true := by
  decide

@[simp] theorem words_nil :
    words [] = [] := by
  rfl

theorem closeWord_append
    (opened : Text) (first later : List Text) :
    closeWord opened (first ++ later) = closeWord opened first ++ later := by
  cases opened with
  | nil =>
      rfl
  | cons c opened =>
      rfl

theorem wordsFrom_cons_of_blank
    {c : Char}
    (hblank : isBlank c = true)
    (opened rest : Text) :
    wordsFrom opened (c :: rest) = closeWord opened (words rest) :=
  if_pos hblank

theorem wordsFrom_cons_of_inked
    {c : Char}
    (hinked : isBlank c = false)
    (opened rest : Text) :
    wordsFrom opened (c :: rest) = wordsFrom (c :: opened) rest :=
  if_neg (by simp [hinked])

@[simp] theorem flatten_closeWord
    (opened : Text) (later : List Text) :
    (closeWord opened later).flatten = opened.reverse ++ later.flatten := by
  cases opened with
  | nil =>
      rfl
  | cons c opened =>
      rfl

/-- Before a blank the words are those of the text up to it. -/
theorem wordsFrom_append_blank
    {c : Char}
    (hblank : isBlank c = true)
    (opened before after : Text) :
    wordsFrom opened (before ++ c :: after) = wordsFrom opened before ++ words after := by
  induction before generalizing opened with
  | nil =>
      rw [List.nil_append, wordsFrom_cons_of_blank hblank, wordsFrom, ← closeWord_append,
        List.nil_append]
  | cons d before ih =>
      rw [List.cons_append]
      cases hd : isBlank d with
      | true =>
          have hbefore : words (before ++ c :: after) = words before ++ words after := ih []
          rw [wordsFrom_cons_of_blank hd, wordsFrom_cons_of_blank hd, hbefore, closeWord_append]
      | false =>
          rw [wordsFrom_cons_of_inked hd, wordsFrom_cons_of_inked hd, ih]

theorem words_append_blank
    {c : Char}
    (hblank : isBlank c = true)
    (before after : Text) :
    words (before ++ c :: after) = words before ++ words after :=
  wordsFrom_append_blank hblank [] before after

theorem wordsFrom_of_inked
    {text : Text}
    (hinked : ∀ c ∈ text, isBlank c = false)
    (opened : Text) :
    wordsFrom opened text = closeWord (text.reverse ++ opened) [] := by
  induction text generalizing opened with
  | nil =>
      rfl
  | cons c text ih =>
      have htext : ∀ d ∈ text, isBlank d = false := by
        intro d hd
        exact hinked d (List.mem_cons_of_mem c hd)
      rw [wordsFrom_cons_of_inked (hinked c List.mem_cons_self), ih htext, List.reverse_cons,
        List.append_assoc, List.singleton_append]

/-- A word is the only word of itself. -/
theorem IsWord.words_eq
    {word : Text}
    (hword : IsWord word) :
    words word = [word] := by
  rw [words, wordsFrom_of_inked hword.inked, List.append_nil]
  cases hreverse : word.reverse with
  | nil =>
      exact absurd (List.reverse_eq_nil_iff.mp hreverse) hword.nonempty
  | cons c opened =>
      rw [closeWord, ← hreverse, List.reverse_reverse]

/-- A character between two spaces is a word. -/
theorem words_append_mark
    {c : Char}
    (hinked : isBlank c = false)
    (before after : Text) :
    words (before ++ ' ' :: c :: ' ' :: after) = words before ++ [c] :: words after := by
  have hmark : words ([c] ++ ' ' :: after) = [[c]] ++ words after := by
    rw [words_append_blank isBlank_space, (isWord_singleton hinked).words_eq]
  rw [words_append_blank isBlank_space]
  exact congrArg (words before ++ ·) hmark

theorem isWord_of_mem_closeWord
    {opened word : Text} {later : List Text}
    (hopened : ∀ c ∈ opened, isBlank c = false)
    (hlater : ∀ word ∈ later, IsWord word)
    (hmem : word ∈ closeWord opened later) :
    IsWord word := by
  cases opened with
  | nil =>
      exact hlater word hmem
  | cons c opened =>
      rcases List.mem_cons.mp hmem with rfl | hmem
      · refine ⟨by simp, ?_⟩
        intro d hd
        exact hopened d (List.mem_reverse.mp hd)
      · exact hlater word hmem

theorem isWord_of_mem_wordsFrom
    {opened text word : Text}
    (hopened : ∀ c ∈ opened, isBlank c = false)
    (hmem : word ∈ wordsFrom opened text) :
    IsWord word := by
  induction text generalizing opened word with
  | nil =>
      exact isWord_of_mem_closeWord hopened (by simp) hmem
  | cons c text ih =>
      cases hc : isBlank c with
      | true =>
          rw [wordsFrom_cons_of_blank hc] at hmem
          exact isWord_of_mem_closeWord hopened (fun _ hlater => ih (by simp) hlater) hmem
      | false =>
          rw [wordsFrom_cons_of_inked hc] at hmem
          refine ih ?_ hmem
          intro d hd
          rcases List.mem_cons.mp hd with rfl | hd
          · exact hc
          · exact hopened d hd

theorem isWord_of_mem_words
    {text word : Text}
    (hmem : word ∈ words text) :
    IsWord word :=
  isWord_of_mem_wordsFrom (by simp) hmem

/-- Words with single spaces between them are read back. -/
theorem words_unwords
    {parts : List Text}
    (hparts : ∀ part ∈ parts, IsWord part) :
    words (unwords parts) = parts := by
  induction parts with
  | nil =>
      rfl
  | cons part rest ih =>
      have hpart := (hparts part List.mem_cons_self).words_eq
      have hrest := ih fun word hword => hparts word (List.mem_cons_of_mem part hword)
      cases rest with
      | nil =>
          exact hpart
      | cons next rest =>
          change words ((part ++ [' ']) ++ unwords (next :: rest)) = _
          rw [List.append_assoc, List.singleton_append, words_append_blank isBlank_space, hpart,
            hrest, List.singleton_append]

/-- The characters of words with single spaces between them. -/
theorem mem_unwords
    {parts : List Text} {c : Char}
    (hparts : ∀ part ∈ parts, IsWord part)
    (hmem : c ∈ unwords parts) :
    c = ' ' ∨ isBlank c = false := by
  induction parts with
  | nil =>
      cases hmem
  | cons part rest ih =>
      have hpart := (hparts part List.mem_cons_self).inked c
      have hrest := ih fun word hword => hparts word (List.mem_cons_of_mem part hword)
      cases rest with
      | nil =>
          exact Or.inr (hpart hmem)
      | cons next rest =>
          change c ∈ (part ++ [' ']) ++ unwords (next :: rest) at hmem
          rw [List.mem_append, List.mem_append, List.mem_singleton] at hmem
          rcases hmem with (hmem | hspace) | hmem
          · exact Or.inr (hpart hmem)
          · exact Or.inl hspace
          · exact hrest hmem

/-- The words together are the characters that are not blank. -/
theorem flatten_wordsFrom
    (opened text : Text) :
    (wordsFrom opened text).flatten =
      opened.reverse ++ text.filter fun c => !isBlank c := by
  induction text generalizing opened with
  | nil =>
      rw [wordsFrom, flatten_closeWord, List.flatten_nil, List.filter_nil]
  | cons c text ih =>
      cases hc : isBlank c with
      | true =>
          rw [wordsFrom_cons_of_blank hc, flatten_closeWord, words, ih]
          simp [hc]
      | false =>
          rw [wordsFrom_cons_of_inked hc, ih]
          simp [hc]

/-- Only a text of blanks has no words. -/
theorem allBlank_iff_words_eq_nil
    {text : Text} :
    allBlank text = true ↔ words text = [] := by
  have hflatten : (words text).flatten = text.filter fun c => !isBlank c :=
    flatten_wordsFrom [] text
  rw [allBlank, List.all_eq_true]
  constructor
  · intro hblank
    rw [List.eq_nil_iff_forall_not_mem]
    intro word hmem
    have hnone : (words text).flatten = [] := by
      rw [hflatten, List.filter_eq_nil_iff]
      simpa using hblank
    exact (isWord_of_mem_words hmem).nonempty (List.flatten_eq_nil_iff.mp hnone word hmem)
  · intro hnone
    rw [hnone, List.flatten_nil, eq_comm, List.filter_eq_nil_iff] at hflatten
    simpa using hflatten

/-- A gap between words: it has characters, and all of them are blank. -/
structure IsGap (text : Text) : Prop where
  nonempty : text ≠ []
  blank : allBlank text = true

theorem words_blanks_append
    {blanks : Text}
    (hblanks : allBlank blanks = true)
    (after : Text) :
    words (blanks ++ after) = words after := by
  induction blanks with
  | nil =>
      rfl
  | cons c blanks ih =>
      rw [allBlank, List.all_cons, Bool.and_eq_true] at hblanks
      rw [List.cons_append, words, wordsFrom_cons_of_blank hblanks.1, ih hblanks.2, closeWord]

/-- The words before and after a gap. -/
theorem words_append_gap
    {gap : Text}
    (hgap : IsGap gap)
    (before after : Text) :
    words (before ++ gap ++ after) = words before ++ words after := by
  obtain ⟨c, blanks, rfl⟩ := List.exists_cons_of_ne_nil hgap.nonempty
  have hblank := hgap.blank
  rw [allBlank, List.all_cons, Bool.and_eq_true] at hblank
  rw [List.append_assoc, List.cons_append, words_append_blank hblank.1,
    words_blanks_append hblank.2]

theorem words_append_blanks
    {blanks : Text}
    (hblanks : allBlank blanks = true)
    (before : Text) :
    words (before ++ blanks) = words before := by
  cases blanks with
  | nil =>
      rw [List.append_nil]
  | cons c rest =>
      have hgap := words_append_gap ⟨List.cons_ne_nil c rest, hblanks⟩ before []
      rwa [List.append_nil, words_nil, List.append_nil] at hgap

theorem allBlank_takeWhile
    (text : Text) :
    allBlank (text.takeWhile isBlank) = true :=
  List.all_takeWhile

/-- The blanks at the ends of a text are in none of its words. -/
theorem words_trim
    (text : Text) :
    words (trim text) = words text := by
  have hfront : words (text.dropWhile isBlank) = words text := by
    rw [← words_blanks_append (allBlank_takeWhile text), List.takeWhile_append_dropWhile]
  rw [trim, ← hfront]
  generalize text.dropWhile isBlank = rest
  have hblanks : allBlank (rest.reverse.takeWhile isBlank).reverse = true := by
    rw [allBlank, List.all_reverse]
    exact allBlank_takeWhile rest.reverse
  rw [← words_append_blanks hblanks, ← List.reverse_append, List.takeWhile_append_dropWhile,
    List.reverse_reverse]

/-- Lines that are written below each other have their own words and no others. -/
theorem words_unlines
    (parts : List Text) :
    words (unlines parts) = parts.flatMap words := by
  induction parts with
  | nil =>
      rfl
  | cons part rest ih =>
      cases rest with
      | nil =>
          exact (List.append_nil _).symm
      | cons next rest =>
          change words ((part ++ ['\n']) ++ unlines (next :: rest)) = _
          rw [List.append_assoc, List.singleton_append, words_append_blank (by decide), ih]
          rfl

theorem allBlank_spaces
    (count : Nat) :
    allBlank (List.replicate count ' ') = true := by
  rw [allBlank, List.all_replicate, isBlank_space]
  cases count <;> rfl

/-- A word behind spaces is the only word. -/
theorem words_spaces_append
    {word : Text}
    (hword : IsWord word) (count : Nat) :
    words (List.replicate count ' ' ++ word) = [word] := by
  rw [words_blanks_append (allBlank_spaces count), hword.words_eq]

end Text
end InfixCalc
