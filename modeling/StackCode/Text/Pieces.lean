/-!
# Pieces of texts

The pieces of a text between separators. Splitting undoes joining where no piece has a separator.
-/

namespace StackCode

/-- The pieces of a text between delimiters. -/
def splitAt (delimiter : Char) : List Char → List (List Char)
  | [] => [[]]
  | c :: cs =>
    if c == delimiter then [] :: splitAt delimiter cs
    else match splitAt delimiter cs with
      | [] => [[c]]
      | piece :: pieces => (c :: piece) :: pieces

/-- The pieces are those of the list of characters. -/
theorem splitAt_eq_splitOn (delimiter : Char) (cs : List Char) :
    splitAt delimiter cs = cs.splitOn delimiter := by
  induction cs with
  | nil => rfl
  | cons c cs ih =>
    rw [List.splitOn_eq_splitOnP, List.splitOnP_cons_eq_if_modifyHead, splitAt, ih,
      List.splitOn_eq_splitOnP]
    split
    · rfl
    · cases hpieces : cs.splitOnP (· == delimiter) with
      | nil => exact absurd hpieces (List.splitOnP_ne_nil _ _)
      | cons piece pieces => rfl

/-- Texts without delimiters are the pieces of what they are joined to. -/
theorem splitAt_intercalate {delimiter : Char} {pieces : List (List Char)} (hne : pieces ≠ [])
    (hfree : ∀ piece ∈ pieces, delimiter ∉ piece) :
    splitAt delimiter ([delimiter].intercalate pieces) = pieces := by
  rw [splitAt_eq_splitOn, List.splitOn_intercalate delimiter hfree hne]

/-- Texts that end in a delimiter each are the pieces in front of an empty one. -/
theorem splitAt_flatMap {delimiter : Char} {pieces : List (List Char)}
    (hfree : ∀ piece ∈ pieces, delimiter ∉ piece) :
    splitAt delimiter (pieces.flatMap (· ++ [delimiter])) = pieces ++ [[]] := by
  have hjoined : pieces.flatMap (· ++ [delimiter]) = [delimiter].intercalate (pieces ++ [[]]) := by
    induction pieces with
    | nil => rfl
    | cons piece rest ih =>
      rw [List.flatMap_cons, ih (List.forall_mem_cons.mp hfree).2]
      cases rest with
      | nil => simp
      | cons second rest => simp [List.intercalate_cons_cons]
  rw [hjoined, splitAt_intercalate (by simp)]
  rw [List.forall_mem_append, List.forall_mem_singleton]
  exact ⟨hfree, List.not_mem_nil⟩

end StackCode
