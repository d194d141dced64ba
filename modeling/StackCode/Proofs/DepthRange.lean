import StackCode.Proofs.Steadiness

/-!
# Depths stay in range

A producer may store instructions raw, without their effect on the depth, and so make the stamps say
what it likes about a simulation. Still the depth of a program is never negative. The stamps are
steady, which leaves room for every operand count that is checked before folding and subtracted
after it, and the high-water mark covers them. Storing an instruction is then never refused for a
negative depth, neither by itself nor as the last step of a push.
-/

namespace StackCode

universe u

variable {α : Type u}

namespace Program

/-- The stamps of a program are steady and covered, and its depth is the last of them. -/
structure InRange (p : Program α) : Prop extends IsSteady p, Covered p

/-- Storing a value one slot higher is not refused. -/
theorem IsSteady.pushValue_misuse {p : Program α} (h : p.IsSteady) (v : Value α) :
    ((p.moveTo (p.stackPos + 1)).appendRaw (.value v)).misuse = none := by
  have hnonneg := h.stackPos_nonneg
  have hsize := h.stackPos_le_size
  have hmoved : (p.moveTo (p.stackPos + 1)).stackPos = p.stackPos + 1 :=
    settle_of_le (by omega) (by omega)
  rw [appendRaw_eq (by rw [hmoved]; omega)]

/-- An assignment is never refused for a negative depth. -/
theorem pushAssign_misuse (p : Program α) (o : Operation α) (depth : Int) (kind : Kind) :
    (p.pushAssign o).misuse ≠ some (.negativeDepth depth kind) := by
  unfold pushAssign
  split
  · simp
  · split
    · simp
    · have hnonneg : 0 ≤ p.stackPos - 1 := by omega
      rw [appendRaw_eq hnonneg]
      simp

namespace InRange

variable {p : Program α}

/-- An empty program is in range. -/
theorem start (config : Config) (draws : Nat → α) : InRange { config, draws } :=
  ⟨.start config draws, .start config draws⟩

/-- The high-water mark covers the depth. -/
theorem stackPos_le_highWater (h : p.InRange) : p.stackPos ≤ p.highWater := by
  rw [h.depth]
  exact h.topPos_le

/-- Pushing a value keeps the program covered. -/
theorem pushValue_covered (h : p.InRange) (v : Value α) : (p.pushValue v).Covered := by
  rw [pushValue_eq h.toIsSteady]
  exact h.toCovered.stored _ _

/-- Storing an instruction raw keeps the program covered. -/
theorem appendRaw_covered (h : p.InRange) (o : Operation α) :
    (p.appendRaw o).program.Covered := by
  rw [appendRaw_eq h.stackPos_nonneg]
  exact h.toCovered.lowered o h.stackPos_le_highWater

/-- Pushing an assignment keeps the program covered, also when it is refused. -/
theorem pushAssign_covered (h : p.InRange) (o : Operation α) :
    (p.pushAssign o).program.Covered := by
  obtain heq | ⟨a, rfl, -, heq⟩ := p.pushAssign_program_cases o
  · rw [heq]
    exact h.toCovered
  · rw [heq]
    have hle := h.stackPos_le_highWater
    exact h.toCovered.lowered (.assign a) (by omega)

/-- Removing the last instruction keeps the program covered, also when there is none. -/
theorem popLast_covered (h : p.InRange) : p.popLast.program.Covered := by
  unfold Program.popLast
  split
  · exact h.toCovered
  · rename_i i rest hlatest
    have hdrop := h.toCovered.rewound_drop 1
    rw [hlatest] at hdrop
    exact hdrop

/-- Sealing keeps the program covered. -/
theorem finalize_covered (h : p.InRange) : p.finalize.program.Covered := by
  have hfused : p.substitute.program.InRange := ⟨h.toIsSteady.substitute, h.toCovered.substitute⟩
  have hclosed : p.substitute.program.closed.Covered := by
    unfold closed
    split
    · exact hfused.toCovered
    · exact hfused.toCovered.lowered .stop hfused.stackPos_le_highWater
  exact ⟨hclosed.nonneg, hclosed.covers⟩

variable [Arithmetic α]

/-- Pushing a call keeps the program covered, also when it is refused. -/
theorem pushCall_covered (h : p.InRange) (c : Call α) : (p.pushCall c).program.Covered := by
  obtain heq | ⟨harity, hle⟩ := p.pushCall_program_cases c
  · rw [heq]
    exact h.toCovered
  · obtain ⟨-, hpushed⟩ | ⟨v, pos, front, above, below, hlatest, -, -, -, -, hprogram⟩ :=
      pushCall_cases h.toIsSteady harity hle
    · exact hpushed.covered h.toCovered
    · rw [hprogram]
      exact h.toCovered.below_front hlatest _ _

end InRange

end Program

variable [Arithmetic α]

/-- Every action keeps the program in range. -/
theorem Action.run_inRange {p : Program α} (h : p.InRange) (a : Action α) : (a.run p).InRange := by
  refine ⟨a.run_steady h.toIsSteady, ?_⟩
  cases a with
  | pushValue v => exact h.pushValue_covered v
  | pushCall c => exact h.pushCall_covered c
  | pushAssign o => exact h.pushAssign_covered o
  | appendRaw o => exact h.appendRaw_covered o
  | popLast => exact h.popLast_covered
  | substitute => exact h.toCovered.substitute
  | finalize => exact h.finalize_covered
  | clear => exact ⟨Int.le_refl 0, by simp [run, Program.clear]⟩

/-- Any sequence of actions keeps the program in range. -/
theorem Program.InRange.after {p : Program α} (h : p.InRange) (actions : List (Action α)) :
    (p.after actions).InRange := by
  induction actions generalizing p with
  | nil => exact h
  | cons a rest ih => exact ih (a.run_inRange h)

/-- Why an action is refused. Pushing a value does not report the refusal of storing it. -/
def Action.misuse (p : Program α) : Action α → Option Misuse
  | .pushValue v => ((p.moveTo (p.stackPos + 1)).appendRaw (.value v)).misuse
  | .pushCall c => (p.pushCall c).misuse
  | .pushAssign o => (p.pushAssign o).misuse
  | .appendRaw o => (p.appendRaw o).misuse
  | .popLast => p.popLast.misuse
  | _ => none

namespace Program

variable {p : Program α}

/-- A call is never refused for a negative depth, however it is folded. -/
theorem IsSteady.pushCall_misuse (h : p.IsSteady) (c : Call α) (depth : Int) (kind : Kind) :
    (p.pushCall c).misuse ≠ some (.negativeDepth depth kind) := by
  by_cases hnegative : c.arity < 0
  · rw [Program.pushCall, pushCallWith_negative hnegative]
    simp
  · have harity : 0 ≤ c.arity := Int.not_lt.mp hnegative
    by_cases hfew : p.stackPos < c.arity
    · rw [Program.pushCall, pushCallWith_missing harity hfew]
      simp
    · obtain ⟨hnone, -⟩ | ⟨v, pos, front, above, below, -, -, -, -, hagain, -⟩ :=
        pushCall_cases h harity (Int.not_lt.mp hfew)
      · simp [hnone]
      · simp [hagain]

/-- No action on a steady program is refused for a negative depth. -/
theorem IsSteady.misuse_ne (h : p.IsSteady) (a : Action α) (depth : Int) (kind : Kind) :
    a.misuse p ≠ some (.negativeDepth depth kind) := by
  cases a with
  | pushValue v => simp [Action.misuse, h.pushValue_misuse v]
  | pushCall c => exact h.pushCall_misuse c depth kind
  | pushAssign o => exact p.pushAssign_misuse o depth kind
  | appendRaw o => simp [Action.misuse, appendRaw_eq h.stackPos_nonneg]
  | popLast =>
    simp only [Action.misuse, Program.popLast]
    split <;> simp
  | substitute => simp [Action.misuse]
  | finalize => simp [Action.misuse]
  | clear => simp [Action.misuse]

end Program

/-- The depth never goes negative. After any actions on an empty program, instructions stored raw
included, with any settings and any tokens, the depth is not negative, it is the stamp of the last
instruction or zero if there is none, and every stamp is between zero and the high-water mark. So
storing an instruction raw is never refused, and no action is refused for a negative depth. -/
theorem depth_never_negative (config : Config) (draws : Nat → α) (actions : List (Action α)) :
    let p := ({ config, draws } : Program α).after actions
    0 ≤ p.stackPos ∧
      p.stackPos = (p.code.map Instruction.stackPos).getLastD 0 ∧
      (∀ i ∈ p.code, 0 ≤ i.stackPos ∧ i.stackPos ≤ p.highWater) ∧
      (∀ o : Operation α, (p.appendRaw o).misuse = none) ∧
      ∀ (a : Action α) (depth : Int) (kind : Kind),
        a.misuse p ≠ some (.negativeDepth depth kind) := by
  intro p
  have h : p.InRange := (Program.InRange.start config draws).after actions
  refine ⟨h.stackPos_nonneg, ?_, ?_, ?_, h.toIsSteady.misuse_ne⟩
  · rw [h.depth]
    exact (getLastD_stamps _).symm
  · intro i hi
    have hi : i ∈ p.latest := List.mem_reverse.mp hi
    exact ⟨h.stamps.stackPos_nonneg i hi, h.covers i hi⟩
  · intro o
    rw [Program.appendRaw_eq h.stackPos_nonneg]

end StackCode
