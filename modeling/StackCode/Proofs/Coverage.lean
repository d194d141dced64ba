import StackCode.Proofs.Push

/-!
# The high-water mark covers the stamps

Only a push moves the depth up, and it raises the high-water mark with it. Everything else that
happens to a program takes over stamps that were there before: an absorbed call goes back to the
place of an operand, and a removal or a negated value leaves the other stamps alone. So the mark is
at least every stamp, whatever the stamps are otherwise like.
-/

namespace StackCode

universe u

variable {α : Type u}

namespace Program

/-- The high-water mark is at least every stamp. -/
structure Covered (p : Program α) : Prop where
  nonneg : 0 ≤ p.highWater
  covers : ∀ i ∈ p.latest, i.stackPos ≤ p.highWater

namespace Covered

variable {p q : Program α}

/-- An empty program is covered. -/
theorem start (config : Config) (draws : Nat → α) : Covered { config, draws } :=
  ⟨Int.le_refl 0, by simp⟩

/-- The same mark covers a program that has no stamp of its own. -/
theorem of_stamps (h : p.Covered) (hwater : q.highWater = p.highWater)
    (hstamps : ∀ i ∈ q.latest, ∃ j ∈ p.latest, i.stackPos = j.stackPos) : q.Covered := by
  refine ⟨hwater ▸ h.nonneg, ?_⟩
  intro i hi
  obtain ⟨j, hj, heq⟩ := hstamps i hi
  rw [heq, hwater]
  exact h.covers j hj

/-- Storing an operation raises the mark to its depth. -/
theorem stored (h : p.Covered) (o : Operation α) (depth : Int) : (p.stored o depth).Covered := by
  refine ⟨Int.le_trans h.nonneg (Int.le_max_left _ _), ?_⟩
  intro i hi
  rcases List.mem_cons.mp hi with rfl | hi
  · exact Int.le_max_right _ _
  · exact Int.le_trans (h.covers i hi) (Int.le_max_left _ _)

/-- Storing an operation at a depth below the mark needs no higher one. -/
theorem lowered (h : p.Covered) (o : Operation α) {depth : Int} (hle : depth ≤ p.highWater) :
    Covered { p with latest := ⟨o, depth⟩ :: p.latest, stackPos := depth } := by
  refine ⟨h.nonneg, ?_⟩
  intro i hi
  rcases List.mem_cons.mp hi with rfl | hi
  · exact hle
  · exact h.covers i hi

/-- Removing the most recent instructions keeps the others covered. -/
theorem rewound_drop (h : p.Covered) (n : Nat) : (p.rewound (p.latest.drop n)).Covered :=
  h.of_stamps rfl fun i hi => ⟨i, List.mem_of_mem_drop hi, rfl⟩

/-- Another operation may stand at the stamp on top. -/
theorem replace_top (h : p.Covered) {o : Operation α} {pos : Int} {rest : List (Instruction α)}
    (hlatest : p.latest = ⟨o, pos⟩ :: rest) (o' : Operation α) :
    Covered { p with latest := ⟨o', pos⟩ :: rest } := by
  refine h.of_stamps rfl ?_
  intro i hi
  rw [hlatest]
  rcases List.mem_cons.mp hi with rfl | hi
  · exact ⟨⟨o, pos⟩, List.mem_cons_self, rfl⟩
  · exact ⟨i, List.mem_cons_of_mem _ hi, rfl⟩

/-- The last stamp is covered, also when there is none. -/
theorem topPos_le (h : p.Covered) : topPos p.latest ≤ p.highWater := by
  cases hlatest : p.latest with
  | nil => exact h.nonneg
  | cons i rest => exact h.covers i (by simp [hlatest])

/-- With the value taken out from above the instruction in front, the program is covered. -/
theorem below_front (h : p.Covered) {i j : Instruction α} {below : List (Instruction α)}
    (hlatest : p.latest = i :: j :: below) (o : Operation α) (depth : Int) :
    ((p.rewound below).stored o depth).Covered := by
  have hdrop := h.rewound_drop 2
  rw [hlatest] at hdrop
  exact hdrop.stored o depth

end Covered

end Program

variable [Arithmetic α] {p q : Program α} {c : Call α}

/-- An absorbed call takes over the stamp of an operand. -/
theorem Absorbed.stamps (h : Absorbed p c q) :
    ∀ i ∈ q.latest, ∃ j ∈ p.latest, i.stackPos = j.stackPos := by
  obtain ⟨n, v, w, pos, rest, hdrop, hlatest⟩ | ⟨e, pos, below, rest, d, hold, hlatest, -, -⟩ :=
    h.shape
  · have hmem {j : Instruction α} (hj : j ∈ ⟨.value w, pos⟩ :: rest) : j ∈ p.latest :=
      List.mem_of_mem_drop (hdrop ▸ hj)
    intro i hi
    rw [hlatest] at hi
    rcases List.mem_cons.mp hi with rfl | hi
    · exact ⟨⟨.value w, pos⟩, hmem List.mem_cons_self, rfl⟩
    · exact ⟨i, hmem (List.mem_cons_of_mem _ hi), rfl⟩
  · intro i hi
    rw [hlatest] at hi
    rw [hold]
    rcases List.mem_cons.mp hi with rfl | hi
    · exact ⟨below, List.mem_cons_of_mem _ List.mem_cons_self, rfl⟩
    · exact ⟨i, List.mem_cons_of_mem _ hi, rfl⟩

/-- An absorbed call keeps the program covered. -/
theorem Absorbed.covered (h : Absorbed p c q) (hp : p.Covered) : q.Covered :=
  hp.of_stamps h.frame.2.1 h.stamps

/-- A pushed call keeps the program covered. -/
theorem Pushed.covered (h : Pushed p c q) (hp : p.Covered) : q.Covered := by
  cases h with
  | absorbed h => exact h.covered hp
  | stored => exact hp.stored _ _

/-- However a call is pushed, the program stays covered. -/
theorem CallPushed.covered (h : CallPushed p c q) (hp : p.Covered) : q.Covered := by
  cases h with
  | direct h => exact h.covered hp
  | negated _ _ _ hlatest h => exact h.covered (hp.replace_top hlatest _)
  | through _ _ _ hlatest _ _ hagain h =>
    exact h.covered (hagain.covered (hp.below_front hlatest _ _))

end StackCode
