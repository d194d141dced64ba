import Mathlib.Algebra.BigOperators.Group.List.Basic
import Mathlib.Algebra.Order.Ring.Nat
import Mathlib.Data.List.SplitBy
import StackCode.Text.Width

/-!
# Display widths at the seams of a text

A terminal shows a text in clusters, a character and the combining marks behind it, and a cluster is
as wide as its first character that takes columns. So the widths of the parts of a text add up where
no part begins with a mark. A mark that stands first in its part joins the character in front of it.
If that is a space, which takes a column itself, then the columns of the marks are lost.

A colour sequence may be cut at a seam, and then stands in neither part. A space is part of no colour
sequence: what stands in front of a space is measured as it is on its own, whatever follows.
-/

namespace StackCode

/-- The characters that tables are drawn with. -/
def drawing : List Char := [' ', '|', '+', '-']

/-- Clusters are single characters or a character with the marks behind it: a text is cut between two
characters unless the second is a mark that joins the first. The characters that tables are drawn
with are no marks, and they take one column. -/
structure Terminal.Combines (terminal : Terminal) (joins : Char → Char → Bool) : Prop where
  clusters_eq (cs : List Char) : terminal.clusters cs = cs.splitBy joins
  not_joins {c : Char} (hc : c ∈ drawing) (before : Char) : joins before c = false
  charWidth_eq {c : Char} (hc : c ∈ drawing) : terminal.charWidth c = 1

/-- The columns that a text loses behind a space: those of its first cluster, if that begins with a
mark that joins the space. -/
def Terminal.overlap (terminal : Terminal) (joins : Char → Char → Bool) (cs : List Char) : Nat :=
  match stripColor cs with
  | [] => 0
  | c :: rest =>
    if joins ' ' c then terminal.clusterWidth ((terminal.clusters (c :: rest)).headD []) else 0

/-- A text begins with a character of the drawing, or is empty. -/
def Detached (cs : List Char) : Prop := ∀ c ∈ cs.head?, c ∈ drawing

/-- Nothing is detached. -/
theorem Detached.nil : Detached [] := fun _ h => by contradiction

/-- A text with a character of the drawing in front. -/
theorem Detached.cons {c : Char} (hc : c ∈ drawing) (cs : List Char) : Detached (c :: cs) := by
  intro d hd
  cases hd
  exact hc

/-- Detached texts one after the other. -/
theorem Detached.append {cs ds : List Char} (hcs : Detached cs) (hds : Detached ds) :
    Detached (cs ++ ds) := by
  cases cs with
  | nil => exact hds
  | cons c cs => exact .cons (hcs c rfl) _

/-- A character that is no escape is kept. -/
theorem stripColor_cons {c : Char} (hc : c ≠ '\x1b') (cs : List Char) :
    stripColor (c :: cs) = c :: stripColor cs := by
  rw [stripColor, if_neg (by simpa using hc)]

/-- A colour sequence is removed. -/
theorem stripColor_sequence {cs rest : List Char} (h : afterColor? cs = some rest) :
    stripColor ('\x1b' :: cs) = stripColor rest := by
  rw [stripColor, if_pos (beq_self_eq_true _)]
  split
  · rename_i after hafter
    rw [Option.some.inj (hafter.symm.trans h)]
  · rename_i hafter
    rw [h] at hafter
    contradiction

/-- An escape that starts no colour sequence is kept. -/
theorem stripColor_escape {cs : List Char} (h : afterColor? cs = none) :
    stripColor ('\x1b' :: cs) = '\x1b' :: stripColor cs := by
  rw [stripColor, if_pos (beq_self_eq_true _)]
  split
  · rename_i after hafter
    rw [h] at hafter
    contradiction
  · rfl

/-- A colour sequence ends in front of a space if it ends at all. -/
theorem afterColor?_append_space (cs rest : List Char) :
    afterColor? (cs ++ ' ' :: rest) = (afterColor? cs).map (· ++ ' ' :: rest) := by
  cases cs with
  | nil => rfl
  | cons c body =>
    by_cases hc : c = '['
    · subst hc
      have hdrop : (body ++ ' ' :: rest).dropWhile (fun c => c.isDigit || c == ';') =
          body.dropWhile (fun c => c.isDigit || c == ';') ++ ' ' :: rest := by
        rw [List.dropWhile_append]
        cases body.dropWhile (fun c => c.isDigit || c == ';') with
        | nil => rfl
        | cons d after => rfl
      simp only [List.cons_append, afterColor?, hdrop]
      cases body.dropWhile (fun c => c.isDigit || c == ';') with
      | nil => rfl
      | cons d after =>
        by_cases hd : d = 'm'
        · subst hd
          rfl
        · simp [hd]
    · simp [afterColor?, hc]

/-- Colours are removed in front of a space and behind it as they are in the two texts. -/
theorem stripColor_append_space (cs rest : List Char) :
    stripColor (cs ++ ' ' :: rest) = stripColor cs ++ ' ' :: stripColor rest := by
  fun_induction stripColor cs with
  | case1 => exact stripColor_cons (by decide) rest
  | case2 c cs hc after hafter ih =>
    obtain rfl := beq_iff_eq.mp hc
    rw [List.cons_append, stripColor_sequence (by rw [afterColor?_append_space, hafter]; rfl), ih]
  | case3 c cs hc hafter ih =>
    obtain rfl := beq_iff_eq.mp hc
    rw [List.cons_append, stripColor_escape (by rw [afterColor?_append_space, hafter]; rfl), ih]
    rfl
  | case4 c cs hc ih =>
    rw [List.cons_append, stripColor_cons (by simpa using hc), ih]
    rfl

/-- No character of the drawing is an escape. -/
theorem ne_escape_of_mem_drawing {c : Char} (hc : c ∈ drawing) : c ≠ '\x1b' := by
  rintro rfl
  revert hc
  decide

/-- A detached text is detached without its colours. -/
theorem Detached.stripColor {cs : List Char} (h : Detached cs) : Detached (stripColor cs) := by
  cases cs with
  | nil => rwa [StackCode.stripColor]
  | cons c cs =>
    have hc : c ∈ drawing := h c rfl
    rw [stripColor_cons (ne_escape_of_mem_drawing hc)]
    exact .cons hc _

/-- A character that joins the first one of a text stands in its first cluster. -/
theorem splitBy_cons_of_joins {joins : Char → Char → Bool} {b c : Char} {cs first : List Char}
    {others : List (List Char)} (hjoins : joins b c = true)
    (h : (c :: cs).splitBy joins = first :: others) :
    (b :: c :: cs).splitBy joins = (b :: first) :: others := by
  rw [List.splitBy_eq_iff] at h ⊢
  obtain ⟨hflatten, hnil, hchain, hcuts⟩ := h
  have hfirst : first ≠ [] := fun hempty => hnil (hempty ▸ List.mem_cons_self)
  obtain ⟨d, marks, rfl⟩ := List.exists_cons_of_ne_nil hfirst
  obtain rfl : c = d := by simpa using congrArg List.head? hflatten
  refine ⟨by simp [hflatten], ?_, ?_, ?_⟩
  · simpa using hnil
  · rw [List.forall_mem_cons] at hchain ⊢
    exact ⟨hchain.1.cons_cons hjoins, hchain.2⟩
  · rw [List.isChain_cons] at hcuts ⊢
    refine ⟨fun next hnext => ?_, hcuts.2⟩
    obtain ⟨_, hne, hcut⟩ := hcuts.1 next hnext
    exact ⟨List.cons_ne_nil _ _, hne, by simpa using hcut⟩

namespace Terminal

/-- The width of a text is the sum over its clusters. -/
theorem widthOf_eq_sum (terminal : Terminal) (cs : List Char) :
    terminal.widthOf cs = ((terminal.clusters cs).map terminal.clusterWidth).sum := by
  rw [widthOf, List.sum, List.foldr_map]

namespace Combines

variable {terminal : Terminal} {joins : Char → Char → Bool} {c : Char} {cs rest : List Char}

/-- No text takes no column. -/
theorem widthOf_nil (h : terminal.Combines joins) : terminal.widthOf [] = 0 := by
  rw [widthOf, h.clusters_eq]
  rfl

/-- The empty text takes no column. -/
theorem width_nil (h : terminal.Combines joins) : terminal.width [] = 0 := by
  rw [width, stripColor, h.widthOf_nil]

/-- A cluster with a character of the drawing in front takes one column. -/
theorem clusterWidth_cons (h : terminal.Combines joins) (hc : c ∈ drawing) (marks : List Char) :
    terminal.clusterWidth (c :: marks) = 1 := by
  simp [clusterWidth, h.charWidth_eq hc]

/-- In front of a character of the drawing, the widths of two parts add up. -/
theorem widthOf_append (h : terminal.Combines joins) (cs : List Char) (hrest : Detached rest) :
    terminal.widthOf (cs ++ rest) = terminal.widthOf cs + terminal.widthOf rest := by
  have hcut : (cs ++ rest).splitBy joins = cs.splitBy joins ++ rest.splitBy joins :=
    List.splitBy_append fun before _ c hc => h.not_joins (hrest c hc) before
  simp only [widthOf_eq_sum, h.clusters_eq, hcut, List.map_append, List.sum_append]

/-- A character of the drawing in front of another takes one column. -/
theorem widthOf_cons (h : terminal.Combines joins) (hc : c ∈ drawing) (hrest : Detached rest) :
    terminal.widthOf (c :: rest) = 1 + terminal.widthOf rest := by
  have hsingle : terminal.widthOf [c] = 1 := by
    rw [widthOf_eq_sum, h.clusters_eq]
    exact h.clusterWidth_cons hc []
  rw [← List.singleton_append, h.widthOf_append [c] hrest, hsingle]

/-- A space takes one column in front of a text, less what the text loses. -/
theorem widthOf_space (h : terminal.Combines joins) (cs : List Char) :
    terminal.widthOf (' ' :: stripColor cs) + terminal.overlap joins cs =
      1 + terminal.width cs := by
  have hspace : ' ' ∈ drawing := List.mem_cons_self
  rw [width, overlap]
  cases stripColor cs with
  | nil => exact h.widthOf_cons hspace .nil
  | cons c rest =>
    obtain ⟨first, others, hclusters⟩ :
        ∃ first others, (c :: rest).splitBy joins = first :: others :=
      List.exists_cons_of_ne_nil (List.splitBy_ne_nil.mpr (List.cons_ne_nil c rest))
    by_cases hjoins : joins ' ' c = true
    · have hjoined := splitBy_cons_of_joins hjoins hclusters
      simp only [if_pos hjoins, widthOf_eq_sum, h.clusters_eq, hjoined, hclusters, List.map_cons,
        List.sum_cons, h.clusterWidth_cons hspace, List.headD_cons]
      omega
    · have hcut : (' ' :: c :: rest).splitBy joins = [' '] :: (c :: rest).splitBy joins :=
        List.splitBy_append (l := [' ']) (by simpa using hjoins)
      simp only [if_neg hjoins, widthOf_eq_sum, h.clusters_eq, hcut, List.map_cons, List.sum_cons,
        h.clusterWidth_cons hspace, Nat.add_zero]

end Combines

/-- A text takes a number of columns in front of a character of the drawing, less some that it
loses. -/
def Occupies (terminal : Terminal) (columns lost : Nat) (cs : List Char) : Prop :=
  ∀ rest, Detached rest → terminal.width (cs ++ rest) + lost = columns + terminal.width rest

namespace Occupies

variable {terminal : Terminal} {joins : Char → Char → Bool} {m n k l : Nat} {cs ds : List Char}

/-- The text on its own takes as many columns. -/
theorem width_eq (h : terminal.Occupies n l cs) (hcombines : terminal.Combines joins) :
    terminal.width cs + l = n := by
  have halone := h [] .nil
  rwa [List.append_nil, hcombines.width_nil] at halone

/-- No text takes no column. -/
theorem nil (terminal : Terminal) : terminal.Occupies 0 0 [] := fun rest _ => by simp

/-- Texts take their columns one after the other. -/
theorem append (hcs : terminal.Occupies m k cs) (hds : terminal.Occupies n l ds)
    (hdetached : Detached ds) : terminal.Occupies (m + n) (k + l) (cs ++ ds) := by
  intro rest hrest
  have hfirst := hcs (ds ++ rest) (hdetached.append hrest)
  have hsecond := hds rest hrest
  rw [List.append_assoc]
  omega

/-- A character of the drawing. -/
theorem single (hcombines : terminal.Combines joins) {c : Char} (hc : c ∈ drawing) :
    terminal.Occupies 1 0 [c] := by
  intro rest hrest
  rw [List.singleton_append, width, stripColor_cons (ne_escape_of_mem_drawing hc),
    hcombines.widthOf_cons hc hrest.stripColor, Nat.add_zero, width]

/-- Copies of a character of the drawing. -/
theorem replicate (hcombines : terminal.Combines joins) {c : Char} (hc : c ∈ drawing) (n : Nat) :
    terminal.Occupies n 0 (List.replicate n c) := by
  induction n with
  | zero => exact nil terminal
  | succ n ih =>
    rw [List.replicate_succ']
    exact ih.append (single hcombines hc) (.cons hc [])

/-- A text between two spaces. -/
theorem spaced (hcombines : terminal.Combines joins) (cs : List Char) :
    terminal.Occupies (terminal.width cs + 2) (terminal.overlap joins cs)
      (' ' :: (cs ++ [' '])) := by
  intro rest hrest
  have hspace : ' ' ∈ drawing := List.mem_cons_self
  have hbefore := hcombines.widthOf_space cs
  have hafter := hcombines.widthOf_cons hspace hrest.stripColor
  have hseam := hcombines.widthOf_append (' ' :: stripColor cs)
    (.cons hspace (stripColor rest))
  have hstrip : stripColor (' ' :: (cs ++ [' ']) ++ rest) =
      ' ' :: stripColor cs ++ ' ' :: stripColor rest := by
    rw [List.cons_append, List.append_assoc, List.singleton_append,
      stripColor_cons (ne_escape_of_mem_drawing hspace), stripColor_append_space]
    rfl
  rw [width, hstrip, hseam, hafter, ← width]
  omega

end Occupies

end Terminal

end StackCode
