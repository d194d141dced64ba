import StackCode.Program.Finalize
import StackCode.Proofs.FusionBlocks

/-!
# Sealing a program twice

A sequence is fully fused if no two adjacent instructions of it can be fused. The fusion pass makes
every sequence fully fused: what it fuses is not fused again, and what it stores was offered to the
instruction before it. A fully fused sequence goes through the pass unchanged, and so it does with an
end instruction behind it.

So sealing a sealed program leaves it as it is, whatever it was sealed from.
-/

namespace StackCode

universe u

variable {α : Type u}

/-- No two adjacent instructions, kept most recent first, can be fused. -/
def FullyFused (latest : List (Instruction α)) : Prop :=
  latest.IsChain fun next tail => fuseInstructions? next tail = none

/-- An instruction that cannot be fused is stored. -/
theorem FullyFused.fuseOnto_eq {before : List (Instruction α)} {next : Instruction α}
    (h : FullyFused (next :: before)) :
    fuseOnto before next = next :: before ∧ fusionEvent before next = [] := by
  cases before with
  | nil => exact ⟨rfl, rfl⟩
  | cons tail rest =>
    obtain ⟨hfuse, -⟩ := List.isChain_cons_cons.mp h
    simp [fuseOnto, fusionEvent, hfuse]

/-- The fusion pass leaves no two adjacent instructions that can be fused: a block starts with an
instruction that the block before it refuses, and what a block of two becomes is never taken in. -/
theorem fullyFused_fusedLatest (latest : List (Instruction α)) :
    FullyFused (fusedLatest latest) := by
  obtain ⟨blocks, -, hresult, hchain⟩ := fusedLatest_blocks latest
  rw [FullyFused, ← List.isChain_reverse, hresult, List.isChain_map]
  refine hchain.imp fun before b hrefuses => ?_
  cases b with
  | kept i => exact hrefuses i rfl
  | fused _ _ _ nextPos _ _ hcall _ => exact (hcall.final nextPos _).2

/-- The fusion pass leaves fully fused instructions as they are. -/
theorem FullyFused.fusedLatest_eq {latest : List (Instruction α)} (h : FullyFused latest) :
    fusedLatest latest = latest := by
  induction latest with
  | nil => rfl
  | cons next rest ih =>
    change StackCode.fuseOnto (fusedLatest rest) next = next :: rest
    rw [ih h.tail]
    exact h.fuseOnto_eq.1

/-- The fusion pass has nothing to report about fully fused instructions. -/
theorem FullyFused.fusionEvents_eq {before rest : List (Instruction α)}
    (h : FullyFused (rest.reverse ++ before)) : fusionEvents before rest = [] := by
  induction rest generalizing before with
  | nil => rfl
  | cons next rest ih =>
    rw [List.reverse_cons, List.append_assoc, List.singleton_append] at h
    have hnext : FullyFused (next :: before) := h.right_of_append
    obtain ⟨hstored, hsilent⟩ := hnext.fuseOnto_eq
    rw [fusionEvents, hsilent, hstored, List.nil_append]
    exact ih h

namespace Program

variable {p : Program α}

/-- The fusion pass does nothing to a fully fused program. -/
theorem substitute_eq_self (h : p.config.optimizer = true → FullyFused p.latest) :
    p.substitute = { program := p } := by
  unfold substitute
  split
  · rename_i hoptimizer
    have hlatest : p.code.foldl StackCode.fuseOnto [] = p.latest :=
      List.foldl_reverse.trans (h hoptimizer).fusedLatest_eq
    have hevents : fusionEvents [] p.code = [] := by
      apply FullyFused.fusionEvents_eq
      simpa [code] using h hoptimizer
    rw [hlatest, hevents]
  · rfl

/-- The code of a sealed program is fully fused if the optimizer is on. -/
theorem fullyFused_finalize (p : Program α) (hoptimizer : p.config.optimizer = true) :
    FullyFused p.finalize.program.latest := by
  have hfused : FullyFused p.substitute.program.latest := by
    rw [substitute_latest, if_pos hoptimizer]
    exact fullyFused_fusedLatest _
  change FullyFused p.substitute.program.closed.latest
  unfold closed
  split
  · exact hfused
  · exact hfused.cons fun _ _ => rfl

/-- A closed program ends with the end instruction. -/
theorem isFinalized_closed (p : Program α) : p.closed.isFinalized = true := by
  unfold closed
  split
  · assumption
  · rfl

/-- Sealing leaves the settings alone. -/
theorem finalize_config (p : Program α) : p.finalize.program.config = p.config := by
  change p.substitute.program.closed.config = p.config
  rw [← p.substitute_frame.1]
  unfold closed
  split <;> rfl

end Program

/-- Sealing twice is sealing once, from any state of a program. The second time nothing is fused, and
indeed no two adjacent instructions of fused code can be fused. -/
theorem finalize_idempotent (p : Program α) :
    p.finalize.program.finalize.program = p.finalize.program ∧
      p.finalize.program.substitute = { program := p.finalize.program } ∧
      (p.config.optimizer = true →
        p.substitute.program.code.IsChain fun tail next => fuseInstructions? next tail = none) := by
  have hsilent : p.finalize.program.substitute = { program := p.finalize.program } := by
    apply Program.substitute_eq_self
    rw [p.finalize_config]
    exact p.fullyFused_finalize
  have hclosed : p.finalize.program.closed = p.finalize.program :=
    if_pos (Program.isFinalized_closed p.substitute.program)
  refine ⟨?_, hsilent, ?_⟩
  · change p.finalize.program.substitute.program.closed.classified = p.finalize.program
    rw [hsilent, hclosed]
    rfl
  · intro hoptimizer
    rw [Program.code, List.isChain_reverse, p.substitute_latest, if_pos hoptimizer]
    exact fullyFused_fusedLatest _

/-- The odd program is sealed with an end at its own depth, and sealing it again changes nothing. -/
theorem finalize_idempotent_odd :
    oddProgram.config.optimizer = true ∧ oddProgram.finalize.program.size = 8 ∧
      oddProgram.finalize.program.finalize.program = oddProgram.finalize.program ∧
      oddProgram.substitute.program.code.IsChain
        fun tail next => fuseInstructions? next tail = none := by
  obtain ⟨hsame, -, hfused⟩ := finalize_idempotent oddProgram
  exact ⟨rfl, by decide +kernel, hsame, hfused rfl⟩

end StackCode
