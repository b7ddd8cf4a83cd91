import InfixCalc.Json.Read
import InfixCalc.Proofs.JsonScan

/-!
# Reading JSON texts

Reading gives every text of the grammar its value, however deep it nests.  The
symbols of a value take the reader from any place where a value may stand to
the place behind it, so the open containers around it play no part.  As a
consequence the grammar gives a text one value only.

* `Reads` : what the symbols of a value do to the reader.
* `reads_of_value` : the texts of a value have such symbols.
* `read?_of_document` : every text is read as its value.
-/

namespace InfixCalc
namespace Json

open InfixCalc.Json.Symbol Grammar

/-- A whole text of a value. -/
def Document (value : Json) (text : Text) : Prop :=
  Element value text

/-- Symbols that are read as a value, wherever one may stand. -/
structure Reads (symbols : List Symbol) (value : Json) : Prop where
  next (outer : List Frame) :
    symbols.foldlM Stage.step? (.value outer) = some (.deliver value outer)
  first (outer : List Frame) :
    symbols.foldlM Stage.step? (.firstElement outer) = some (.deliver value (.array [] :: outer))

/-- Symbols that are read as the elements of an array. -/
structure ReadsElements (symbols : List Symbol) (elements : List Json) : Prop where
  next (held : List Json) (outer : List Frame) :
    symbols.foldlM Stage.step? (.value (.array held :: outer)) =
      some (.afterElement (elements.reverse ++ held) outer)
  first (outer : List Frame) :
    symbols.foldlM Stage.step? (.firstElement outer) =
      some (.afterElement elements.reverse outer)

/-- Symbols that are read as members of an object. -/
structure ReadsMembers (symbols : List Symbol) (members : List (Text × Json)) : Prop where
  next (held : List (Text × Json)) (outer : List Frame) :
    symbols.foldlM Stage.step? (.key held outer) =
      some (.afterMember (members.reverse ++ held) outer)
  first (outer : List Frame) :
    symbols.foldlM Stage.step? (.firstKey outer) =
      some (.afterMember members.reverse outer)

section Symbols

variable {symbols later : List Symbol} {value : Json}

theorem foldlM_cons_of_step
    {stage next : Stage} {symbol : Symbol}
    (hstep : stage.step? symbol = some next)
    (rest : List Symbol) :
    (symbol :: rest).foldlM Stage.step? stage = rest.foldlM Stage.step? next := by
  rw [List.foldlM_cons, hstep]
  rfl

theorem foldlM_append_of_run
    {stage next : Stage}
    (hrun : symbols.foldlM Stage.step? stage = some next)
    (rest : List Symbol) :
    (symbols ++ rest).foldlM Stage.step? stage = rest.foldlM Stage.step? next := by
  rw [List.foldlM_append, hrun]
  rfl

/-- A value is read in the same way where an array may end instead. -/
theorem Reads.of_open
    {symbol : Symbol} {rest : List Symbol}
    (hsymbol : symbol ≠ .closeArray)
    (hvalue : ∀ outer,
      (symbol :: rest).foldlM Stage.step? (.value outer) = some (.deliver value outer)) :
    Reads (symbol :: rest) value := by
  refine ⟨hvalue, fun outer => ?_⟩
  -- only a closing bracket is treated differently at the start of an array
  have hstep : ∀ outer,
      Stage.step? (.firstElement outer) symbol = Stage.step? (.value (.array [] :: outer)) symbol := by
    intro outer
    cases symbol with
    | closeArray =>
        exact absurd rfl hsymbol
    | _ =>
        rfl
  rw [← hvalue, List.foldlM_cons, List.foldlM_cons, hstep]

theorem reads_atom
    (value : Json) :
    Reads [.atom value] value :=
  .of_open (by simp) fun _ => rfl

theorem reads_emptyArray :
    Reads [.openArray, .closeArray] (.arr []) :=
  .of_open (by simp) fun _ => rfl

theorem reads_emptyObject :
    Reads [.openObject, .closeObject] (.obj []) :=
  .of_open (by simp) fun _ => rfl

theorem ReadsElements.array
    {elements : List Json}
    (hreads : ReadsElements symbols elements) :
    Reads (.openArray :: (symbols ++ [.closeArray])) (.arr elements) := by
  refine .of_open (by simp) fun outer => ?_
  have hopen : Stage.step? (.value outer) .openArray = some (.firstElement outer) := rfl
  have hclose : Stage.step? (.afterElement elements.reverse outer) .closeArray =
      some (.deliver (.arr elements.reverse.reverse) outer) := rfl
  rw [foldlM_cons_of_step hopen, foldlM_append_of_run (hreads.first outer),
    foldlM_cons_of_step hclose, List.reverse_reverse]
  rfl

theorem ReadsMembers.object
    {members : List (Text × Json)}
    (hreads : ReadsMembers symbols members) :
    Reads (.openObject :: (symbols ++ [.closeObject])) (.obj members) := by
  refine .of_open (by simp) fun outer => ?_
  have hopen : Stage.step? (.value outer) .openObject = some (.firstKey outer) := rfl
  have hclose : Stage.step? (.afterMember members.reverse outer) .closeObject =
      some (.deliver (.obj members.reverse.reverse) outer) := rfl
  rw [foldlM_cons_of_step hopen, foldlM_append_of_run (hreads.first outer),
    foldlM_cons_of_step hclose, List.reverse_reverse]
  rfl

theorem Reads.singleton
    (hreads : Reads symbols value) :
    ReadsElements symbols [value] := by
  constructor
  · intro held outer
    exact hreads.next (.array held :: outer)
  · intro outer
    exact hreads.first outer

theorem Reads.cons
    {rest : List Json}
    (hreads : Reads symbols value) (hrest : ReadsElements later rest) :
    ReadsElements (symbols ++ .comma :: later) (value :: rest) := by
  have hcomma : ∀ held outer,
      Stage.step? (.afterElement held outer) .comma = some (.value (.array held :: outer)) :=
    fun _ _ => rfl
  constructor
  · intro held outer
    rw [foldlM_append_of_run (hreads.next (.array held :: outer)), Stage.deliver,
      foldlM_cons_of_step (hcomma _ _), hrest.next, List.reverse_cons, List.append_assoc,
      List.singleton_append]
  · intro outer
    rw [foldlM_append_of_run (hreads.first outer), Stage.deliver,
      foldlM_cons_of_step (hcomma _ _), hrest.next, List.reverse_cons]

theorem Reads.member
    (hreads : Reads symbols value) (key : Text) :
    ReadsMembers (.atom (.str key) :: .colon :: symbols) [(key, value)] := by
  have hcolon : ∀ held outer,
      Stage.step? (.colon held key outer) .colon = some (.value (.object held key :: outer)) :=
    fun _ _ => rfl
  constructor
  · intro held outer
    have hkey : Stage.step? (.key held outer) (.atom (.str key)) = some (.colon held key outer) :=
      rfl
    rw [foldlM_cons_of_step hkey, foldlM_cons_of_step (hcolon held outer), hreads.next]
    rfl
  · intro outer
    have hkey : Stage.step? (.firstKey outer) (.atom (.str key)) = some (.colon [] key outer) :=
      rfl
    rw [foldlM_cons_of_step hkey, foldlM_cons_of_step (hcolon [] outer), hreads.next]
    rfl

theorem ReadsMembers.cons
    {member : Text × Json} {rest : List (Text × Json)}
    (hreads : ReadsMembers symbols [member]) (hrest : ReadsMembers later rest) :
    ReadsMembers (symbols ++ .comma :: later) (member :: rest) := by
  have hcomma : ∀ held outer,
      Stage.step? (.afterMember held outer) .comma = some (.key held outer) :=
    fun _ _ => rfl
  constructor
  · intro held outer
    rw [foldlM_append_of_run (hreads.next held outer), foldlM_cons_of_step (hcomma _ _),
      hrest.next, List.reverse_singleton, List.reverse_cons, List.append_assoc]
  · intro outer
    rw [foldlM_append_of_run (hreads.first outer), foldlM_cons_of_step (hcomma _ _), hrest.next,
      List.reverse_singleton, List.reverse_cons]

end Symbols

section Texts

/-- A mark is a symbol of its own that delimits what stands before it. -/
structure IsMark (c : Char) (symbol : Symbol) : Prop where
  start : start? c = some ([symbol], .between)
  continuesNumber : continuesNumber c = false
  isLower : c.isLower = false

variable {c : Char} {symbol : Symbol} {text rest : Text} {symbols later : List Symbol}

theorem scans_mark_append
    (hmark : IsMark c symbol) (hrest : ScansDelimited rest later) :
    ScansDelimited (c :: rest) (symbol :: later) :=
  (scans_of_start hmark.start).append_delimited hrest

theorem scans_append_mark
    (htext : ScansDelimited text symbols) (hmark : IsMark c symbol)
    (hrest : ScansDelimited rest later) :
    ScansDelimited (text ++ c :: rest) (symbols ++ symbol :: later) :=
  htext.append (fun _ _ => delimited_cons hmark.continuesNumber hmark.isLower _)
    (scans_mark_append hmark hrest)

theorem scans_padded
    {before after : Text}
    (hbefore : Space before) (htext : ScansDelimited text symbols) (hafter : Space after) :
    ScansDelimited (before ++ (text ++ after)) symbols := by
  have hpadded := (scans_space hbefore).append_delimited
    (htext.append (fun _ => delimited_space_append hafter) (scans_space hafter).delimited)
  rwa [List.nil_append, List.append_nil] at hpadded

theorem isMark_comma : IsMark ',' .comma :=
  ⟨rfl, rfl, rfl⟩

theorem isMark_colon : IsMark ':' .colon :=
  ⟨rfl, rfl, rfl⟩

theorem isMark_openArray : IsMark '[' .openArray :=
  ⟨rfl, rfl, rfl⟩

theorem isMark_closeArray : IsMark ']' .closeArray :=
  ⟨rfl, rfl, rfl⟩

theorem isMark_openObject : IsMark '\x7b' .openObject :=
  ⟨rfl, rfl, rfl⟩

theorem isMark_closeObject : IsMark '\x7d' .closeObject :=
  ⟨rfl, rfl, rfl⟩

/-- A container is scanned as what it holds between its brackets. -/
theorem scans_container
    {close : Char} {last : Symbol}
    (hopen : IsMark c symbol) (htext : ScansDelimited text symbols) (hclose : IsMark close last) :
    ScansDelimited (c :: (text ++ [close])) (symbol :: (symbols ++ [last])) :=
  scans_mark_append hopen (scans_append_mark htext hclose scans_nil.delimited)

end Texts

mutual

/-- The texts of a value have symbols that are read as it. -/
theorem reads_of_value
    {value : Json} {text : Text} :
    Grammar.Value value text →
    ∃ symbols, ScansDelimited text symbols ∧ Reads symbols value
  | .null => ⟨_, scans_name rfl rfl rfl, reads_atom _⟩
  | .true => ⟨_, scans_name rfl rfl rfl, reads_atom _⟩
  | .false => ⟨_, scans_name rfl rfl rfl, reads_atom _⟩
  | .number hnumber => ⟨_, scans_number hnumber, reads_atom _⟩
  | .string hcharacters => ⟨_, (scans_string hcharacters).delimited, reads_atom _⟩
  | .emptyArray hspace =>
      ⟨_, scans_container isMark_openArray (scans_space hspace).delimited isMark_closeArray,
        reads_emptyArray⟩
  | .array helements => by
      obtain ⟨symbols, hscans, hreads⟩ := reads_of_elements helements
      exact ⟨_, scans_container isMark_openArray hscans isMark_closeArray, hreads.array⟩
  | .emptyObject hspace =>
      ⟨_, scans_container isMark_openObject (scans_space hspace).delimited isMark_closeObject,
        reads_emptyObject⟩
  | .object hmembers => by
      obtain ⟨symbols, hscans, hreads⟩ := reads_of_members hmembers
      exact ⟨_, scans_container isMark_openObject hscans isMark_closeObject, hreads.object⟩

theorem reads_of_element
    {value : Json} {text : Text} :
    Element value text →
    ∃ symbols, ScansDelimited text symbols ∧ Reads symbols value
  | .mk hbefore hvalue hafter => by
      obtain ⟨symbols, hscans, hreads⟩ := reads_of_value hvalue
      exact ⟨symbols, scans_padded hbefore hscans hafter, hreads⟩

theorem reads_of_elements
    {elements : List Json} {text : Text} :
    Elements elements text →
    ∃ symbols, ScansDelimited text symbols ∧ ReadsElements symbols elements
  | .last helement => by
      obtain ⟨symbols, hscans, hreads⟩ := reads_of_element helement
      exact ⟨symbols, hscans, hreads.singleton⟩
  | .cons helement hrest => by
      obtain ⟨symbols, hscans, hreads⟩ := reads_of_element helement
      obtain ⟨later, hlater, hreadsLater⟩ := reads_of_elements hrest
      exact ⟨_, scans_append_mark hscans isMark_comma hlater, hreads.cons hreadsLater⟩

theorem reads_of_member
    {member : Text × Json} {text : Text} :
    Member member text →
    ∃ symbols, ScansDelimited text symbols ∧ ReadsMembers symbols [member]
  | @Member.mk key value before name between text hbefore hname hbetween helement => by
      obtain ⟨symbols, hscans, hreads⟩ := reads_of_element helement
      have hcolon := (scans_space hbetween).append_delimited
        (scans_mark_append isMark_colon hscans)
      have hkey := (scans_space hbefore).append_delimited
        ((scans_string hname).append_delimited hcolon)
      refine ⟨_, ?_, hreads.member key⟩
      simpa using hkey

theorem reads_of_members
    {members : List (Text × Json)} {text : Text} :
    Members members text →
    ∃ symbols, ScansDelimited text symbols ∧ ReadsMembers symbols members
  | .last hmember => reads_of_member hmember
  | .cons hmember hrest => by
      obtain ⟨symbols, hscans, hreads⟩ := reads_of_member hmember
      obtain ⟨later, hlater, hreadsLater⟩ := reads_of_members hrest
      exact ⟨_, scans_append_mark hscans isMark_comma hlater, hreads.cons hreadsLater⟩

end

/-- Every text is read as its value. -/
theorem read?_of_document
    {value : Json} {text : Text}
    (hdocument : Document value text) :
    read? text = some value := by
  obtain ⟨symbols, hscans, hreads⟩ := reads_of_element hdocument
  have hscan := hscans [] delimited_nil
  rw [List.append_nil] at hscan
  rw [read?, scan?, hscan, scanFrom?, finish?, Option.map_some, List.append_nil, Option.bind_some,
    ofSymbols?, hreads.next, Option.bind_some]
  rfl

/-- A text has one value. -/
theorem Document.unique
    {value other : Json} {text : Text}
    (hvalue : Document value text) (hother : Document other text) :
    value = other := by
  have hsame := (read?_of_document hvalue).symm.trans (read?_of_document hother)
  exact Option.some.inj hsame

end Json
end InfixCalc
