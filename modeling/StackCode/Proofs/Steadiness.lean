import StackCode.Proofs.Fusion

/-!
# Steady programs

Whatever a producer does to a program, its depth is the last stamp, no stamp is negative, and none
exceeds the one below it by more than its instruction can add. This also holds where an instruction
was stored without its effect on the depth, and after fusion: the second of two fused calls is an
operator, which adds no slot, so the fused call adds at most the slot of the first one.
-/

namespace StackCode

universe u

variable {α : Type u}

/-- The second call of a fused pair is an operator. -/
theorem pairRules_outer : ∀ r ∈ pairRules, r.outer ∈ ["+", "-", "*", "/"] := by decide

/-- The call after a fused power is an operator, and what they are fused to is none. -/
theorem powerRules_outer : ∀ r ∈ powerRules,
    r.outer ∈ ["+", "-", "*", "/"] ∧ r.routine.name ∉ ["+", "-", "*", "/"] := by decide

/-- The second of two fused calls adds no slot, and the fused call may add one. -/
theorem FusedCall.growth_eq {next tail c : Call α} (h : FusedCall next tail c) :
    (Operation.call next).growth = 0 ∧ (Operation.call c).growth = 1 := by
  cases h with
  | pair hrule hnext _ houter _ =>
    have hsymbol := pairRules_outer _ hrule
    exact ⟨if_pos ⟨hnext, houter ▸ hsymbol⟩, rfl⟩
  | power hrule hnext houter _ =>
    obtain ⟨hsymbol, hname⟩ := powerRules_outer _ hrule
    exact ⟨if_pos ⟨hnext, houter ▸ hsymbol⟩, if_neg fun hoperator => hname hoperator.2⟩

/-- One more instruction keeps the stamps steady, fused or not. -/
theorem fuseOnto_steady {before : List (Instruction α)} {next : Instruction α}
    (h : Steady (next :: before)) : Steady (fuseOnto before next) := by
  obtain heq | ⟨tail, rest, fused, event, rfl, hfuse, heq⟩ := fuseOnto_cases before next
  · rw [heq]
    exact h
  · rw [heq]
    obtain ⟨n, t, c, hn, -, -, -, hcall, rfl⟩ := fuseInstructions?_fused hfuse
    obtain ⟨hzero, hone⟩ := hcall.growth_eq
    obtain _ | ⟨hbefore, hnonneg, hgrowth⟩ := h
    obtain _ | ⟨hrest, -, htail⟩ := hbefore
    have hslot := tail.operation.growth_le_one
    rw [hn, hzero] at hgrowth
    change next.stackPos ≤ tail.stackPos + 0 at hgrowth
    refine .cons hrest hnonneg ?_
    change next.stackPos ≤ topPos rest + (Operation.call c).growth
    omega

/-- The fusion pass keeps the stamps steady. -/
theorem fusedLatest_steady {latest : List (Instruction α)} (h : Steady latest) :
    Steady (fusedLatest latest) := by
  induction h with
  | nil => exact .nil
  | @cons next rest _ hnonneg hgrowth ih =>
    rw [← topPos_fusedLatest] at hgrowth
    exact fuseOnto_steady (.cons ih hnonneg hgrowth)

namespace Program.IsSteady

variable {p : Program α}

/-- An empty program is steady. -/
theorem start (config : Config) (draws : Nat → α) : IsSteady { config, draws } := ⟨.nil, rfl⟩

/-- Storing an instruction at any depth that adds no slot keeps the program steady. -/
theorem lowered (h : p.IsSteady) (o : Operation α) {depth : Int} (hnonneg : 0 ≤ depth)
    (hle : depth ≤ p.stackPos) :
    IsSteady { p with latest := ⟨o, depth⟩ :: p.latest, stackPos := depth } := by
  refine ⟨.cons h.stamps hnonneg ?_, rfl⟩
  rw [← h.depth]
  exact Int.le_trans hle (Int.le_add_of_nonneg_right o.growth_nonneg)

/-- Storing an instruction raw keeps the program steady. -/
theorem appendRaw (h : p.IsSteady) (o : Operation α) : (p.appendRaw o).program.IsSteady := by
  rw [appendRaw_eq h.stackPos_nonneg]
  exact h.lowered o h.stackPos_nonneg (Int.le_refl _)

/-- Pushing a value keeps the program steady. -/
theorem pushValue (h : p.IsSteady) (v : Value α) : (p.pushValue v).IsSteady := by
  rw [pushValue_eq h]
  have hnonneg := h.stackPos_nonneg
  exact h.stored (by omega) (Int.le_refl _)

/-- Removing the last instruction keeps the program steady, also when there is none. -/
theorem popLast (h : p.IsSteady) : p.popLast.program.IsSteady := by
  unfold Program.popLast
  split
  · exact h
  · rename_i i rest hlatest
    have hstamps := h.stamps
    rw [hlatest] at hstamps
    exact .rewound hstamps.tail

/-- Pushing an assignment keeps the program steady, also when it is refused. -/
theorem pushAssign (h : p.IsSteady) (o : Operation α) : (p.pushAssign o).program.IsSteady := by
  obtain heq | ⟨a, rfl, htwo, heq⟩ := p.pushAssign_program_cases o
  · rw [heq]
    exact h
  · rw [heq]
    exact h.lowered (.assign a) (by omega) (Int.sub_le_self _ (by decide))

/-- Emptying a program leaves it steady. -/
theorem clear (p : Program α) : p.clear.IsSteady := ⟨.nil, rfl⟩

/-- The fusion pass keeps the program steady. -/
theorem substitute (h : p.IsSteady) : p.substitute.program.IsSteady := by
  obtain ⟨-, hdepth, -⟩ := p.substitute_frame
  have hlatest := p.substitute_latest
  split at hlatest
  · refine ⟨hlatest ▸ fusedLatest_steady h.stamps, ?_⟩
    rw [hdepth, hlatest, topPos_fusedLatest, h.depth]
  · refine ⟨hlatest ▸ h.stamps, ?_⟩
    rw [hdepth, hlatest, h.depth]

/-- Sealing keeps the program steady. -/
theorem finalize (h : p.IsSteady) : p.finalize.program.IsSteady := by
  have hfused := h.substitute
  have hclosed : p.substitute.program.closed.IsSteady := by
    unfold closed
    split
    · exact hfused
    · exact hfused.lowered .stop hfused.stackPos_nonneg (Int.le_refl _)
  exact ⟨hclosed.stamps, hclosed.depth⟩

variable [Arithmetic α]

/-- Pushing a call keeps the program steady, also when it is refused. -/
theorem pushCall (h : p.IsSteady) (c : Call α) : (p.pushCall c).program.IsSteady := by
  obtain heq | ⟨harity, hle⟩ := p.pushCall_program_cases c
  · rw [heq]
    exact h
  · obtain ⟨-, hpushed⟩ | ⟨v, pos, front, above, below, hlatest, -, -, -, -, hprogram⟩ :=
      pushCall_cases h harity hle
    · exact hpushed.isSteady h harity hle
    · rw [hprogram]
      exact h.below_front hlatest v.negated

end Program.IsSteady

variable [Arithmetic α]

/-- Every action keeps the program steady. -/
theorem Action.run_steady {p : Program α} (h : p.IsSteady) (a : Action α) :
    (a.run p).IsSteady := by
  cases a with
  | pushValue v => exact h.pushValue v
  | pushCall c => exact h.pushCall c
  | pushAssign o => exact h.pushAssign o
  | appendRaw o => exact h.appendRaw o
  | popLast => exact h.popLast
  | substitute => exact h.substitute
  | finalize => exact h.finalize
  | clear => exact .clear p

end StackCode
