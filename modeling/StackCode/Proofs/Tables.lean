import Mathlib.Algebra.Order.BigOperators.Group.List
import Mathlib.Data.List.Forall2
import Mathlib.Order.Bounds.Basic
import StackCode.Table
import StackCode.Text.Pieces
import StackCode.Text.Unicode
import StackCode.Proofs.DisplayWidth

/-!
# Rendered tables

A line of a table is its columns with a separator in front of the first and behind each. A row shows
its cells between spaces, one on each side and more to fill the column; a line between rows shows
dashes. Behind a cell there is always a space, and in front of it as well. So a cell takes in the line
the columns that it takes on its own, with all colours in it, unless it begins with a mark: the mark
joins the space, and the columns of its cluster are missing from the line.

What stands in a column takes two columns more than the widest cell, less those that are lost. So the
separators are aligned and all lines are as wide as each other exactly if no cell loses a column.
-/

namespace StackCode

/-- Columns with a separator in front of the first and behind each. -/
def ruled (separator : Char) (columns : List (List Char)) : List Char :=
  separator :: columns.flatMap (· ++ [separator])

/-- A cell and the numbers of spaces that fill its column on both sides. -/
structure PaddedCell where
  before : Nat
  cell : String
  after : Nat

/-- The cell among its spaces, one more on each side. -/
def PaddedCell.chars (p : PaddedCell) : List Char :=
  List.replicate (p.before + 1) ' ' ++ (p.cell.toList ++ List.replicate (p.after + 1) ' ')

/-- The separators stand where columns of the given widths end, less what is lost in each: up to each
of them, a line takes the widths of the columns so far, with two spaces and a separator for each, and
the first separator. -/
structure Aligned (terminal : Terminal) (widths lost : List Nat) (separator : Char)
    (columns : List (List Char)) : Prop where
  length_eq : columns.length = widths.length
  width_eq (i : Nat) (hi : i ≤ widths.length) :
    terminal.width (ruled separator (columns.take i)) + (lost.take i).sum =
      1 + ((widths.take i).map (· + 3)).sum

/-- A line of a table shows the cells of a row, unchanged, in order and with empty ones up to the last
column, or nothing if it stands between rows. -/
inductive Shows (terminal : Terminal) (joins : Char → Char → Bool) (widths : List Nat) :
    Option (List String) → List Char → Prop
  | row {row : List String} {cells : List PaddedCell} (hfits : row.length ≤ widths.length)
      (hcells : cells.map PaddedCell.cell =
        row ++ List.replicate (widths.length - row.length) "")
      (haligned : Aligned terminal widths
        (cells.map fun p => terminal.overlap joins p.cell.toList) '|' (cells.map PaddedCell.chars)) :
      Shows terminal joins widths (some row) (ruled '|' (cells.map PaddedCell.chars))
  | rule {columns : List (List Char)} (hdashes : ∀ column ∈ columns, ∀ c ∈ column, c = '-')
      (haligned : Aligned terminal widths [] '+' columns) :
      Shows terminal joins widths none (ruled '+' columns)

/-- A line has no characters but its separators and those of its columns. -/
theorem notMem_ruled {c separator : Char} (hne : c ≠ separator) {columns : List (List Char)}
    (h : ∀ column ∈ columns, c ∉ column) : c ∉ ruled separator columns := by
  simp only [ruled, List.mem_cons, List.mem_flatMap, List.mem_append, List.not_mem_nil, or_false]
  rintro (heq | ⟨column, hcolumn, hc | heq⟩)
  · exact hne heq
  · exact h column hcolumn hc
  · exact hne heq

/-- A padded cell has no characters but spaces and those of the cell. -/
theorem PaddedCell.notMem_chars (p : PaddedCell) {c : Char} (hne : c ≠ ' ')
    (h : c ∉ p.cell.toList) : c ∉ p.chars := by
  simp only [chars, List.mem_append, List.mem_replicate]
  rintro (⟨-, heq⟩ | hc | ⟨-, heq⟩)
  · exact hne heq
  · exact h hc
  · exact hne heq

section Columns

variable {ι : Type} {terminal : Terminal} {joins : Char → Char → Bool} {separator : Char}
  {parts : List ι} {width lost : ι → Nat} {chars : ι → List Char}

/-- What its columns take, a line takes up to the last separator. -/
theorem occupies_ruled (hcombines : terminal.Combines joins) (hseparator : separator ∈ drawing)
    (h : ∀ part ∈ parts,
      Detached (chars part) ∧ terminal.Occupies (width part + 2) (lost part) (chars part)) :
    terminal.Occupies (1 + ((parts.map width).map (· + 3)).sum) (parts.map lost).sum
      (ruled separator (parts.map chars)) := by
  have hone : terminal.Occupies 1 0 [separator] := .single hcombines hseparator
  have hend : Detached [separator] := .cons hseparator []
  have hcolumns : Detached ((parts.map chars).flatMap (· ++ [separator])) ∧
      terminal.Occupies ((parts.map width).map (· + 3)).sum (parts.map lost).sum
        ((parts.map chars).flatMap (· ++ [separator])) := by
    induction parts with
    | nil => exact ⟨.nil, .nil terminal⟩
    | cons part rest ih =>
      obtain ⟨⟨hdetached, hpart⟩, hrest⟩ := List.forall_mem_cons.mp h
      obtain ⟨hdetachedRest, hoccupies⟩ := ih hrest
      simp only [List.map_cons, List.flatMap_cons, List.sum_cons]
      exact ⟨(hdetached.append hend).append hdetachedRest,
        (hpart.append hone hend).append hoccupies hdetachedRest⟩
  have hline := hone.append hcolumns.2 hcolumns.1
  rwa [Nat.zero_add] at hline

/-- Columns that take their widths and two spaces are aligned. -/
theorem aligned_of_occupies (hcombines : terminal.Combines joins) (hseparator : separator ∈ drawing)
    (h : ∀ part ∈ parts,
      Detached (chars part) ∧ terminal.Occupies (width part + 2) (lost part) (chars part)) :
    Aligned terminal (parts.map width) (parts.map lost) separator (parts.map chars) where
  length_eq := by rw [List.length_map, List.length_map]
  width_eq i _ := by
    have hline := occupies_ruled hcombines hseparator
      fun part hpart => h part (List.mem_of_mem_take (i := i) hpart)
    simpa only [List.map_take] using hline.width_eq hcombines

end Columns

namespace Aligned

variable {terminal : Terminal} {widths lost : List Nat} {separator : Char}
  {columns : List (List Char)}

/-- A line ends at its last separator. -/
theorem width_line (h : Aligned terminal widths lost separator columns)
    (hlost : lost.length ≤ widths.length) :
    terminal.width (ruled separator columns) + lost.sum = 1 + (widths.map (· + 3)).sum := by
  have hlast := h.width_eq widths.length (Nat.le_refl _)
  rwa [List.take_length, ← h.length_eq, List.take_length,
    List.take_of_length_le (h.length_eq ▸ hlost)] at hlast

/-- Columns that lose nothing are aligned without loss. -/
theorem of_forall_eq_zero (h : Aligned terminal widths lost separator columns)
    (hzero : ∀ n ∈ lost, n = 0) : Aligned terminal widths [] separator columns where
  length_eq := h.length_eq
  width_eq i hi := by
    have hnone : (lost.take i).sum = 0 :=
      List.sum_eq_zero fun n hn => hzero n (List.mem_of_mem_take hn)
    simpa [hnone] using h.width_eq i hi

end Aligned

/-- The columns that the cells of a row lose, or none between rows. -/
def Terminal.lost (terminal : Terminal) (joins : Char → Char → Bool) :
    Option (List String) → Nat
  | none => 0
  | some row => (row.map fun cell => terminal.overlap joins cell.toList).sum

/-- An empty cell loses nothing. -/
theorem Terminal.overlap_empty (terminal : Terminal) (joins : Char → Char → Bool) :
    terminal.overlap joins "".toList = 0 := by
  simp [overlap, stripColor]

namespace Shows

variable {terminal : Terminal} {joins : Char → Char → Bool} {widths : List Nat}
  {content : Option (List String)} {line : List Char}

/-- A row loses what its cells lose: those that fill it up lose nothing. -/
theorem sum_overlap {row : List String} {cells : List PaddedCell} {n : Nat}
    (hcells : cells.map PaddedCell.cell = row ++ List.replicate n "") :
    (cells.map fun p => terminal.overlap joins p.cell.toList).sum =
      terminal.lost joins (some row) := by
  have hmap : (cells.map fun p => terminal.overlap joins p.cell.toList) =
      (cells.map PaddedCell.cell).map fun cell => terminal.overlap joins cell.toList := by
    rw [List.map_map]
    rfl
  rw [hmap, hcells, List.map_append, List.map_replicate, Terminal.overlap_empty, List.sum_append,
    List.sum_replicate, nsmul_zero, Nat.add_zero, Terminal.lost]

/-- A line takes the columns of all widths, less those that are lost. -/
theorem width_line (h : Shows terminal joins widths content line) :
    terminal.width line + terminal.lost joins content = 1 + (widths.map (· + 3)).sum := by
  cases h with
  | row _ hcells haligned =>
    rw [← sum_overlap hcells]
    refine haligned.width_line (Nat.le_of_eq ?_)
    rw [← haligned.length_eq, List.length_map, List.length_map]
  | rule _ haligned => exact haligned.width_line (Nat.zero_le _)

/-- The separators of a line that loses nothing stand where the columns end. -/
theorem exists_aligned (h : Shows terminal joins widths content line)
    (hzero : terminal.lost joins content = 0) :
    ∃ separator columns, line = ruled separator columns ∧
      Aligned terminal widths [] separator columns := by
  cases h with
  | row _ hcells haligned =>
    rw [← sum_overlap hcells, List.sum_eq_zero_iff] at hzero
    exact ⟨_, _, rfl, haligned.of_forall_eq_zero hzero⟩
  | rule _ haligned => exact ⟨_, _, rfl, haligned⟩

/-- A line has no line break if none of its cells has one. -/
theorem newline_notMem (h : Shows terminal joins widths content line)
    (hunbroken : ∀ row, content = some row → ∀ cell ∈ row, '\n' ∉ cell.toList) : '\n' ∉ line := by
  cases h with
  | @row row cells _ hcells _ =>
    refine notMem_ruled (by decide) (List.forall_mem_map.mpr fun p hp => ?_)
    have hcell : p.cell ∈ row ++ List.replicate (widths.length - row.length) "" :=
      hcells ▸ List.mem_map_of_mem hp
    refine p.notMem_chars (by decide) ?_
    rcases List.mem_append.mp hcell with hrow | hempty
    · exact hunbroken row rfl _ hrow
    · rw [List.eq_of_mem_replicate hempty]
      decide
  | rule hdashes _ =>
    refine notMem_ruled (by decide) fun column hcolumn hc => ?_
    exact absurd (hdashes column hcolumn _ hc) (by decide)

end Shows

/-- Of two lists whose members are related in turn, each member of the second has one of the first
that is related to it. -/
theorem exists_of_forall₂ {α β : Type} {R : α → β → Prop} {contents : List α} {lines : List β}
    {line : β} (h : List.Forall₂ R contents lines) (hline : line ∈ lines) :
    ∃ content ∈ contents, R content line := by
  induction h with
  | nil => exact absurd hline List.not_mem_nil
  | cons hfirst _ ih =>
    rcases List.mem_cons.mp hline with rfl | hline
    · exact ⟨_, List.mem_cons_self, hfirst⟩
    · obtain ⟨content, hcontent, hshown⟩ := ih hline
      exact ⟨content, List.mem_cons_of_mem _ hcontent, hshown⟩

/-- A padded cell begins with a space. -/
theorem PaddedCell.detached (p : PaddedCell) : Detached p.chars := by
  rw [chars, List.replicate_succ]
  exact .cons List.mem_cons_self _

/-- A padded cell takes its own width, its spaces and one on each side, less what the cell loses. -/
theorem PaddedCell.occupies {terminal : Terminal} {joins : Char → Char → Bool}
    (hcombines : terminal.Combines joins) (p : PaddedCell) :
    terminal.Occupies (p.before + terminal.width p.cell.toList + p.after + 2)
      (terminal.overlap joins p.cell.toList) p.chars := by
  have hspace : ' ' ∈ drawing := List.mem_cons_self
  have hafter : Detached (List.replicate p.after ' ') := by
    intro c hc
    rw [List.eq_of_mem_replicate (List.mem_of_mem_head? hc)]
    exact hspace
  have hcell := (Terminal.Occupies.spaced hcombines p.cell.toList).append
    (.replicate hcombines hspace p.after) hafter
  have hchars : p.chars = List.replicate p.before ' ' ++
      ((' ' :: (p.cell.toList ++ [' '])) ++ List.replicate p.after ' ') := by
    rw [chars, List.replicate_succ', List.replicate_succ]
    simp
  have hline := (Terminal.Occupies.replicate hcombines hspace p.before).append hcell
    (.cons hspace _)
  rw [hchars]
  have hsum : p.before + terminal.width p.cell.toList + p.after + 2 =
      p.before + (terminal.width p.cell.toList + 2 + p.after) := by omega
  rwa [hsum, ← Nat.zero_add (terminal.overlap joins p.cell.toList)]

/-- The spaces that stand in front of a cell, of those that fill its column. -/
def Alignment.share (gap : Nat) : Alignment → Nat
  | .left | .other _ => 0
  | .right => gap
  | .center => gap / 2

/-- A cell as it stands in a column. -/
def paddedCell (terminal : Terminal) (cell : String) (width : Nat) (alignment : Alignment) :
    PaddedCell :=
  let gap := width - terminal.width cell.toList
  ⟨alignment.share gap, cell, gap - alignment.share gap⟩

/-- The spaces fill the column if the cell is not too wide for it. -/
theorem occupies_paddedCell {terminal : Terminal} {joins : Char → Char → Bool}
    (hcombines : terminal.Combines joins) {cell : String} {width : Nat}
    (hwide : terminal.width cell.toList ≤ width) (alignment : Alignment) :
    terminal.Occupies (width + 2) (terminal.overlap joins cell.toList)
      (paddedCell terminal cell width alignment).chars := by
  have hoccupies := (paddedCell terminal cell width alignment).occupies hcombines
  have hshare : alignment.share (width - terminal.width cell.toList) ≤
      width - terminal.width cell.toList := by
    cases alignment <;> simp [Alignment.share, Nat.div_le_self]
  have hfilled : (paddedCell terminal cell width alignment).before + terminal.width cell.toList +
      (paddedCell terminal cell width alignment).after = width := by
    simp only [paddedCell]
    omega
  rwa [show (paddedCell terminal cell width alignment).cell = cell from rfl, hfilled] at hoccupies

/-- A cell is filled up with spaces on the sides that its alignment says. -/
theorem toList_pad (terminal : Terminal) (cell : String) (width : Nat) (alignment : Alignment) :
    " ".toList ++ (pad terminal cell width alignment).toList ++ " ".toList =
      (paddedCell terminal cell width alignment).chars := by
  have hpad : (pad terminal cell width alignment).toList =
      List.replicate (paddedCell terminal cell width alignment).before ' ' ++ (cell.toList ++
        List.replicate (paddedCell terminal cell width alignment).after ' ') := by
    cases alignment <;> simp [pad, paddedCell, Alignment.share, repeated]
  have hcell : (paddedCell terminal cell width alignment).cell = cell := rfl
  rw [hpad, PaddedCell.chars, hcell, List.replicate_succ, List.replicate_succ']
  simp

namespace Table

variable {terminal : Terminal} {joins : Char → Char → Bool} {widths : List Nat}
  {alignment : List Alignment} {row : List String}

/-- The cells of a line as they stand in its columns. -/
def paddedCells (terminal : Terminal) (widths : List Nat) (alignment : List Alignment)
    (row : List String) : List PaddedCell :=
  widths.zipIdx.map fun (w, i) => paddedCell terminal (row.getD i "") w (alignment.getD i .left)

/-- A line with cells, without the line break at its end. -/
def rowBody (terminal : Terminal) (widths : List Nat) (alignment : List Alignment)
    (row : List String) : List Char :=
  ruled '|' ((paddedCells terminal widths alignment row).map PaddedCell.chars)

/-- A line between rows, without the line break at its end. -/
def ruleBody (widths : List Nat) : List Char :=
  ruled '+' (widths.map fun w => List.replicate (w + 2) '-')

/-- The characters of a line with cells. -/
theorem toList_line (terminal : Terminal) (widths : List Nat) (alignment : List Alignment)
    (row : List String) : (line terminal widths alignment row).toList =
      rowBody terminal widths alignment row ++ ['\n'] := by
  simp only [line, rowBody, ruled, paddedCells, String.toList_append, String.toList_join,
    List.flatMap_map, ← toList_pad]
  simp

/-- The characters of a line between rows. -/
theorem toList_separator (widths : List Nat) :
    (separator widths).toList = ruleBody widths ++ ['\n'] := by
  simp only [separator, ruleBody, ruled, String.toList_append, String.toList_join,
    List.flatMap_map, repeated]
  simp

/-- A line between rows shows nothing. -/
theorem shows_ruleBody (hcombines : terminal.Combines joins) (widths : List Nat) :
    Shows terminal joins widths none (ruleBody widths) := by
  have hdash : '-' ∈ drawing := by decide
  have haligned : Aligned terminal (widths.map id) (widths.map fun _ => 0) '+'
      (widths.map fun w => List.replicate (w + 2) '-') := by
    refine aligned_of_occupies hcombines (by decide) fun w _ => ⟨?_, ?_⟩
    · exact .cons hdash _
    · exact .replicate hcombines hdash (w + 2)
  rw [List.map_id] at haligned
  refine .rule ?_ (haligned.of_forall_eq_zero ?_)
  · intro column hcolumn c hc
    obtain ⟨w, -, rfl⟩ := List.mem_map.mp hcolumn
    exact List.eq_of_mem_replicate hc
  · exact List.forall_mem_map.mpr fun _ _ => rfl

/-- The cells of a line are those of its row, in order, and empty ones up to the last column. -/
theorem cells_paddedCells (hfits : row.length ≤ widths.length) :
    (paddedCells terminal widths alignment row).map PaddedCell.cell =
      row ++ List.replicate (widths.length - row.length) "" := by
  refine List.ext_getElem ?_ fun i hleft hright => ?_
  · simp [paddedCells, Nat.add_sub_of_le hfits]
  · simp only [paddedCells, List.getElem_map, List.getElem_zipIdx, Nat.zero_add, paddedCell,
      List.getElem_append, List.getElem_replicate, List.getD_eq_getElem?_getD]
    split
    · rename_i hi
      simp [hi]
    · rename_i hi
      simp [Nat.le_of_not_lt hi]

/-- A line shows its row if no cell is wider than its column. -/
theorem shows_rowBody (hcombines : terminal.Combines joins) (hfits : row.length ≤ widths.length)
    (hwide : ∀ i (hi : i < widths.length), terminal.width (row.getD i "").toList ≤ widths[i]) :
    Shows terminal joins widths (some row) (rowBody terminal widths alignment row) := by
  have haligned : Aligned terminal (widths.zipIdx.map Prod.fst)
      (widths.zipIdx.map fun (_, i) => terminal.overlap joins (row.getD i "").toList) '|'
      (widths.zipIdx.map fun (w, i) =>
        (paddedCell terminal (row.getD i "") w (alignment.getD i .left)).chars) := by
    refine aligned_of_occupies hcombines (by decide) fun (w, i) hpart => ⟨?_, ?_⟩
    · exact PaddedCell.detached _
    · obtain ⟨hi, hw⟩ := List.mem_zipIdx' hpart
      exact occupies_paddedCell hcombines (hw ▸ hwide i hi) _
  rw [List.zipIdx_map_fst] at haligned
  refine .row hfits (cells_paddedCells hfits) ?_
  rw [paddedCells, List.map_map, List.map_map]
  exact haligned

/-- The header and the rows. -/
def allRows (t : Table) : List (List String) := t.header :: t.rows

/-- There is a column for each cell of each row, and no more. -/
theorem columns_spec (t : Table) :
    (∃ row ∈ t.allRows, row.length = t.columns) ∧ ∀ row ∈ t.allRows, row.length ≤ t.columns := by
  have hmax : (t.allRows.map List.length).max? = some t.columns := List.max?_cons'
  rw [List.max?_eq_some_iff] at hmax
  exact ⟨List.mem_map.mp hmax.1, List.forall_mem_map.mp hmax.2⟩

/-- A column is as wide as one of its cells if it is not of width zero, and no cell is wider. -/
theorem width_spec (terminal : Terminal) (t : Table) (i : Nat) :
    (t.width terminal i = 0 ∨
        ∃ row ∈ t.allRows, terminal.width (row.getD i "").toList = t.width terminal i) ∧
      ∀ row ∈ t.allRows, terminal.width (row.getD i "").toList ≤ t.width terminal i := by
  have hmax : (0 :: t.allRows.map fun row => terminal.width (row.getD i "").toList).max? =
      some (t.width terminal i) := List.max?_cons'
  rw [List.max?_eq_some_iff, List.mem_cons, List.mem_map, List.forall_mem_cons,
    List.forall_mem_map] at hmax
  exact ⟨hmax.1, hmax.2.2⟩

/-- A column is as wide as its widest cell. -/
theorem isGreatest_width (hcombines : terminal.Combines joins) (t : Table) {i : Nat}
    (hi : i < t.columns) :
    IsGreatest {n | ∃ row ∈ t.allRows, ∃ cell, row[i]? = some cell ∧ terminal.width cell.toList = n}
      (t.width terminal i) := by
  obtain ⟨hsome, hall⟩ := t.width_spec terminal i
  have hcell {row : List String} (hrow : row ∈ t.allRows) (hlong : i < row.length) :
      row[i]? = some row[i] ∧ terminal.width row[i].toList ≤ t.width terminal i := by
    have hle := hall row hrow
    rw [List.getD_eq_getElem?_getD, List.getElem?_eq_getElem hlong] at hle
    exact ⟨List.getElem?_eq_getElem hlong, hle⟩
  constructor
  · by_cases hzero : t.width terminal i = 0
    · -- No cell of the column takes any width, and the longest row has one.
      obtain ⟨row, hrow, hlongest⟩ := t.columns_spec.1
      obtain ⟨heq, hle⟩ := hcell hrow (hlongest ▸ hi)
      exact ⟨row, hrow, _, heq, by omega⟩
    · obtain ⟨row, hrow, hwidest⟩ := hsome.resolve_left hzero
      have hlong : i < row.length := by
        by_contra hshort
        rw [List.getD_eq_getElem?_getD, List.getElem?_eq_none (Nat.le_of_not_lt hshort)] at hwidest
        exact hzero (hwidest.symm.trans hcombines.width_nil)
      rw [List.getD_eq_getElem?_getD, List.getElem?_eq_getElem hlong] at hwidest
      exact ⟨row, hrow, _, (hcell hrow hlong).1, hwidest⟩
  · rintro n ⟨row, hrow, cell, heq, rfl⟩
    obtain ⟨hlong, rfl⟩ := List.getElem?_eq_some_iff.mp heq
    exact (hcell hrow hlong).2

/-- One width for each column, that of its widest cell. -/
structure HasWidths (terminal : Terminal) (t : Table) (widths : List Nat) : Prop where
  covers (row : List String) (hrow : row ∈ t.allRows) : row.length ≤ widths.length
  greatest (i : Nat) (hi : i < widths.length) :
    IsGreatest {n | ∃ row ∈ t.allRows, ∃ cell, row[i]? = some cell ∧ terminal.width cell.toList = n}
      widths[i]

/-- There is a width for each column. -/
theorem length_widths (terminal : Terminal) (t : Table) :
    (t.widths terminal).length = t.columns := by simp [widths]

/-- There is a column for each cell of a row. -/
theorem length_le_widths (terminal : Terminal) {t : Table} (hrow : row ∈ t.allRows) :
    row.length ≤ (t.widths terminal).length :=
  t.length_widths terminal ▸ t.columns_spec.2 row hrow

/-- The widths of a table are those of its widest cells. -/
theorem hasWidths (hcombines : terminal.Combines joins) (t : Table) :
    t.HasWidths terminal (t.widths terminal) where
  covers _ hrow := length_le_widths terminal hrow
  greatest i hi := by
    simpa [widths] using t.isGreatest_width hcombines (t.length_widths terminal ▸ hi)

/-- What the lines of a table show, from the first to the last. -/
def layout (t : Table) : List (Option (List String)) :=
  none :: (if t.header = [] then [] else [some t.header, none]) ++ t.rows.map some ++ [none]

/-- The lines of a table, without the line breaks at their ends. -/
def bodies (terminal : Terminal) (t : Table) : List (List Char) :=
  let widths := t.widths terminal
  ruleBody widths ::
    (if t.header = [] then []
      else [rowBody terminal widths t.headerAlignment t.header, ruleBody widths]) ++
    t.rows.map (rowBody terminal widths t.alignment) ++ [ruleBody widths]

/-- Each line of a table shows what the layout says. -/
theorem shows_bodies (hcombines : terminal.Combines joins) (t : Table) :
    List.Forall₂ (Shows terminal joins (t.widths terminal)) t.layout (t.bodies terminal) := by
  have hrule : Shows terminal joins (t.widths terminal) none (ruleBody (t.widths terminal)) :=
    shows_ruleBody hcombines _
  have hrows (alignment : List Alignment) (row : List String) (hrow : row ∈ t.allRows) :
      Shows terminal joins (t.widths terminal) (some row)
        (rowBody terminal (t.widths terminal) alignment row) := by
    refine shows_rowBody hcombines (length_le_widths terminal hrow) fun i hi => ?_
    simpa [widths] using (t.width_spec terminal i).2 row hrow
  refine List.rel_append (List.rel_append (.cons hrule ?_) ?_) (.cons hrule .nil)
  · split
    · exact .nil
    · exact .cons (hrows _ _ List.mem_cons_self) (.cons hrule .nil)
  · rw [List.forall₂_map_left_iff, List.forall₂_map_right_iff, List.forall₂_same]
    exact fun row hrow => hrows _ row (List.mem_cons_of_mem _ hrow)

/-- The text of a table with columns is its lines with a line break at the end of each. -/
theorem toList_render (terminal : Terminal) (t : Table) (h : t.columns ≠ 0) :
    (t.render terminal).toList = (t.bodies terminal).flatMap (· ++ ['\n']) := by
  rw [render, lines, if_neg h]
  by_cases hheader : t.header = [] <;>
    simp [hheader, bodies, toList_separator, toList_line, List.flatMap_map]

/-- A table without columns is not drawn. -/
theorem render_of_columns_eq_zero (terminal : Terminal) (t : Table) (h : t.columns = 0) :
    t.render terminal = "" := by
  rw [render, lines, if_pos h]
  rfl

/-- The lines show the header and the rows alone. -/
theorem mem_allRows_of_mem_layout {t : Table} (h : some row ∈ t.layout) : row ∈ t.allRows := by
  rw [layout] at h
  rw [allRows, List.mem_cons]
  split at h
  · exact Or.inr (by simpa using h)
  · simpa using h

/-- Each row that has cells is shown. -/
theorem mem_layout_of_mem_allRows {t : Table} (hrow : row ∈ t.allRows) (hne : row ≠ []) :
    some row ∈ t.layout := by
  rw [allRows, List.mem_cons] at hrow
  rw [layout]
  rcases hrow with rfl | hrow
  · simp [hne]
  · simp [hrow]

/-- A line for each row, one in front and one behind, and two for the header. -/
theorem length_layout (t : Table) :
    t.layout.length = t.rows.length + if t.header = [] then 2 else 4 := by
  rw [layout]
  split <;> simp

/-- There is no column exactly if there is no cell. -/
theorem columns_eq_zero_iff (t : Table) : t.columns = 0 ↔ ∀ row ∈ t.allRows, row = [] := by
  constructor
  · intro hzero row hrow
    exact List.eq_nil_of_length_eq_zero (Nat.le_zero.mp (hzero ▸ t.columns_spec.2 row hrow))
  · intro hempty
    obtain ⟨row, hrow, hlength⟩ := t.columns_spec.1
    rw [← hlength, hempty row hrow]
    rfl

/-- No cell loses a column: none begins with a mark that joins a space and takes columns. -/
def Upright (terminal : Terminal) (joins : Char → Char → Bool) (t : Table) : Prop :=
  ∀ row ∈ t.allRows, ∀ cell ∈ row, terminal.overlap joins cell.toList = 0

/-- No cell loses a column exactly if no line does. -/
theorem upright_iff (t : Table) :
    t.Upright terminal joins ↔ ∀ content ∈ t.layout, terminal.lost joins content = 0 := by
  constructor
  · intro hupright content hcontent
    cases content with
    | none => rfl
    | some row =>
      refine List.sum_eq_zero (List.forall_mem_map.mpr ?_)
      exact hupright row (mem_allRows_of_mem_layout hcontent)
  · intro hlost row hrow cell hcell
    have hzero := hlost _ (mem_layout_of_mem_allRows hrow (List.ne_nil_of_mem hcell))
    rw [Terminal.lost, List.sum_eq_zero_iff] at hzero
    exact hzero _ (List.mem_map_of_mem hcell)

end Table

/-- Rendered tables are complete, and rectangular exactly if no cell loses a column. Take any header
and rows, of any lengths and without line breaks in their cells, with any alignments. If there is no
cell, nothing is written. Otherwise there is a width for each column, that of its widest cell, and a
column for each cell. The text is lines that end in a line break each, two more than there are rows,
or four with a header. The lines show the header and the rows in turn, with lines of dashes around
and between them: each row with its cells unchanged and in order, padded with spaces alone, and each
separator at the place where its column ends, less the columns that the cells in front of it lose. So
all lines take the widths with three columns for each and one more, and all separators are at the
same places, exactly if no cell begins with a mark that joins a space and takes columns. -/
theorem rendered_tables_rectangular_iff (terminal : Terminal) (joins : Char → Char → Bool)
    (hcombines : terminal.Combines joins) (t : Table)
    (hunbroken : ∀ row ∈ t.allRows, ∀ cell ∈ row, '\n' ∉ cell.toList) :
    ((∀ row ∈ t.allRows, row = []) → t.render terminal = "") ∧
      ((∃ row ∈ t.allRows, row ≠ []) → t.HasWidths terminal (t.widths terminal) ∧
        ∃ lines, splitAt '\n' (t.render terminal).toList = lines ++ [[]] ∧
          lines.length = t.rows.length + (if t.header = [] then 2 else 4) ∧
          List.Forall₂ (Shows terminal joins (t.widths terminal)) t.layout lines ∧
          ((∀ line ∈ lines, terminal.width line = 1 + ((t.widths terminal).map (· + 3)).sum) ↔
            t.Upright terminal joins) ∧
          (t.Upright terminal joins → ∀ line ∈ lines, ∃ separator columns,
            line = ruled separator columns ∧
              Aligned terminal (t.widths terminal) [] separator columns)) := by
  refine ⟨fun hempty => t.render_of_columns_eq_zero terminal (t.columns_eq_zero_iff.mpr hempty), ?_⟩
  rintro ⟨row, hrow, hcells⟩
  have hcolumns : t.columns ≠ 0 := fun hzero => hcells (t.columns_eq_zero_iff.mp hzero row hrow)
  have hshows := t.shows_bodies hcombines
  refine ⟨t.hasWidths hcombines, t.bodies terminal, ?_, ?_, hshows, ?_, ?_⟩
  · rw [t.toList_render terminal hcolumns, splitAt_flatMap]
    intro line hline
    obtain ⟨content, hcontent, hshown⟩ := exists_of_forall₂ hshows hline
    refine hshown.newline_notMem fun row hrow => hunbroken row ?_
    exact Table.mem_allRows_of_mem_layout (hrow ▸ hcontent)
  · rw [← hshows.length_eq, t.length_layout]
  · rw [t.upright_iff]
    constructor
    · intro hwide content hcontent
      have hshowing : List.Forall₂ (fun line content => Shows terminal joins _ content line)
        (t.bodies terminal) t.layout := hshows.flip
      obtain ⟨line, hline, hshown⟩ := exists_of_forall₂ hshowing hcontent
      have hwidth := hshown.width_line
      have hfull := hwide line hline
      omega
    · intro hlost line hline
      obtain ⟨content, hcontent, hshown⟩ := exists_of_forall₂ hshows hline
      have hwidth := hshown.width_line
      rwa [hlost content hcontent] at hwidth
  · intro hupright line hline
    obtain ⟨content, hcontent, hshown⟩ := exists_of_forall₂ hshows hline
    exact hshown.exists_aligned (t.upright_iff.mp hupright content hcontent)

/-- The terminal by Unicode shows each character with the marks behind it. -/
theorem Terminal.unicode_combines :
    Terminal.unicode.Combines fun _ c => markRanges.contains c where
  clusters_eq _ := rfl
  not_joins {c} hc _ := by
    have hmarks : drawing.all (fun c => !markRanges.contains c) = true := by decide +kernel
    simpa using List.all_eq_true.mp hmarks c hc
  charWidth_eq {c} hc := by
    have hwidths : drawing.all (fun c => unicodeWidth c == 1) = true := by decide +kernel
    exact beq_iff_eq.mp (List.all_eq_true.mp hwidths c hc)

/-- A table with rows of different lengths: one with a coloured cell, a mark that stands first in its
cell and a cell that looks like two, one without cells, and one with half a colour sequence. -/
def coloredTable : Table where
  header := ["name", "語"]
  rows := [["\x1b[1mab\x1b[22m", "\u0301c", "x|y"], [], ["\x1b[3"]]
  alignment := [.right, .other 7]
  headerAlignment := [.center]

/-- The mark that stands first takes no column, so the table has seven lines of nineteen columns. -/
theorem rendered_tables_rectangular_iff_colored :
    Terminal.unicode.Combines (fun _ c => markRanges.contains c) ∧
      (∀ row ∈ coloredTable.allRows, ∀ cell ∈ row, '\n' ∉ cell.toList) ∧
      (∃ row ∈ coloredTable.allRows, row ≠ []) ∧
      coloredTable.Upright .unicode (fun _ c => markRanges.contains c) ∧
      coloredTable.HasWidths .unicode [4, 2, 3] ∧
      ∃ lines, splitAt '\n' (coloredTable.render .unicode).toList = lines ++ [[]] ∧
        lines.length = 7 ∧ ∀ line ∈ lines, Terminal.unicode.width line = 19 := by
  have hunbroken : ∀ row ∈ coloredTable.allRows, ∀ cell ∈ row, '\n' ∉ cell.toList := by decide
  have hcells : ∃ row ∈ coloredTable.allRows, row ≠ [] := by decide
  have hupright : ∀ row ∈ coloredTable.allRows, ∀ cell ∈ row,
      Terminal.unicode.overlap (fun _ c => markRanges.contains c) cell.toList = 0 := by
    decide +kernel
  have hwidths : coloredTable.widths .unicode = [4, 2, 3] := by decide +kernel
  obtain ⟨hgreatest, lines, hlines, hlength, -, hrectangular, -⟩ :=
    (rendered_tables_rectangular_iff .unicode _ Terminal.unicode_combines coloredTable
      hunbroken).2 hcells
  rw [hwidths] at hgreatest hrectangular
  exact ⟨Terminal.unicode_combines, hunbroken, hcells, hupright, hgreatest, lines, hlines, hlength,
    hrectangular.mpr hupright⟩

/-- A table of one cell, which is a vowel sign that takes a column and joins the character in front of
it. -/
def vowelTable : Table where
  rows := [["\u0e35"]]

/-- The line of the vowel sign is narrower than the lines of dashes, and its last separator is not
below theirs. -/
theorem leading_mark_narrows_line :
    Terminal.unicode.Combines (fun _ c => markRanges.contains c) ∧
      vowelTable.widths .unicode = [1] ∧
      splitAt '\n' (vowelTable.render .unicode).toList =
        ["+---+".toList, "| \u0e35 |".toList, "+---+".toList, []] ∧
      Terminal.unicode.width "+---+".toList = 5 ∧
      Terminal.unicode.width "| \u0e35 |".toList = 4 := by
  refine ⟨Terminal.unicode_combines, ?_⟩
  decide +kernel

end StackCode
