/-!
# Display width

A terminal shows a text in clusters, and each cluster is as wide as its first character that takes
columns. Which characters form a cluster and how many columns a character takes is up to the
terminal. Colour sequences are removed before a text is measured.
-/

namespace StackCode

/-- What follows a colour sequence that starts after its escape character. -/
def afterColor? : List Char → Option (List Char)
  | '[' :: rest =>
    match rest.dropWhile fun c => c.isDigit || c == ';' with
    | 'm' :: after => some after
    | _ => none
  | _ => none

/-- A colour sequence is not empty. -/
theorem length_of_afterColor? {cs rest : List Char} (h : afterColor? cs = some rest) :
    rest.length < cs.length := by
  unfold afterColor? at h
  split at h
  · rename_i body
    split at h
    · rename_i after heq
      cases h
      have := (@List.dropWhile_sublist _ body fun c => c.isDigit || c == ';').length_le
      rw [heq] at this
      simp only [List.length_cons] at this ⊢
      omega
    · cases h
  · cases h

/-- Removes colour sequences: escape, bracket, digits and semicolons, `m`. -/
def stripColor : List Char → List Char
  | [] => []
  | c :: cs =>
    if c == '\x1b' then
      match _h : afterColor? cs with
      | some rest => stripColor rest
      | none => c :: stripColor cs
    else c :: stripColor cs
termination_by cs => cs.length
decreasing_by
  · have := length_of_afterColor? _h
    simp only [List.length_cons]
    omega
  · simp
  · simp

/-- How a terminal shows texts. -/
structure Terminal where
  /-- The number of columns that a character takes. -/
  charWidth : Char → Nat
  /-- The clusters that a text is shown in. -/
  clusters : List Char → List (List Char)

namespace Terminal

/-- The width of a cluster is that of its first character that takes columns. -/
def clusterWidth (terminal : Terminal) (cluster : List Char) : Nat :=
  ((cluster.map terminal.charWidth).find? (· != 0)).getD 0

/-- The number of columns that a text without colour sequences takes. -/
def widthOf (terminal : Terminal) (cs : List Char) : Nat :=
  (terminal.clusters cs).foldr (fun cluster columns => terminal.clusterWidth cluster + columns) 0

/-- The number of columns that a text takes. -/
def width (terminal : Terminal) (cs : List Char) : Nat := terminal.widthOf (stripColor cs)

end Terminal

end StackCode
