import StackCode.Proofs.Checking
import StackCode.Proofs.FailureCodes
import StackCode.Proofs.Fusion
import StackCode.Proofs.Tokens

/-!
# The check accepts assembled programs

A sealed program is the fused code and an end, so the check finds nothing exactly if the stamps of
the fused code are right and the high-water mark covers them.

Programs from postfix expressions keep to the naming convention under folding, so fusion keeps
their stamps right too. The check then accepts them, whatever the settings were.
-/

namespace StackCode

universe u

variable {α : Type u}

namespace Program

variable {p : Program α}

/-- A program of stored operations has no end instruction yet. -/
theorem Holds.isFinalized_eq_false (h : p.Holds Operation.Storable) : p.isFinalized = false := by
  rw [Bool.eq_false_iff]
  intro hsealed
  obtain ⟨body, last, hcode, hlast⟩ := isFinalized_iff.mp hsealed
  have hmem : last ∈ p.latest := by
    rw [← List.mem_reverse, ← code, hcode]
    simp
  exact (h last hmem).ne_stop hlast

/-- Sealing a program whose fused code holds stored operations only adds the end instruction. -/
theorem finalize_eq (h : p.substitute.program.Holds Operation.Storable) :
    p.finalize.program.code =
        p.substitute.program.code ++ [⟨.stop, p.substitute.program.stackPos⟩] ∧
      p.finalize.program.isFinalized = true ∧
      p.finalize.program.highWater = p.substitute.program.highWater := by
  have hclosed : p.substitute.program.closed =
      { p.substitute.program with
        latest := ⟨.stop, p.substitute.program.stackPos⟩ :: p.substitute.program.latest } := by
    rw [closed, h.isFinalized_eq_false]
    rfl
  simp only [finalize, classified, hclosed]
  refine ⟨?_, rfl, trivial⟩
  simp [code]

/-- A sealed program is no longer than its code before fusion and the end, and exactly as long without
the optimizer. -/
theorem finalize_size (h : p.substitute.program.Holds Operation.Storable) :
    p.finalize.program.size ≤ p.size + 1 ∧
      (p.config.optimizer = false → p.finalize.program.size = p.size + 1) := by
  have hsize : p.finalize.program.size = p.substitute.program.latest.length + 1 := by
    have hlength := congrArg List.length (finalize_eq h).1
    simpa [code, size] using hlength
  rw [hsize, substitute_latest]
  split
  · rename_i hoptimizer
    refine ⟨Nat.succ_le_succ (fusedLatest_length_le _), ?_⟩
    simp [hoptimizer]
  · exact ⟨Nat.le_refl _, fun _ => rfl⟩

/-- A sealed program runs soundly exactly if the stamps of its fused code are right. -/
theorem runsSoundly_finalize_iff (h : p.substitute.program.Holds Operation.Storable)
    (hdepth : p.substitute.program.stackPos = topPos p.substitute.program.latest) :
    RunsSoundly 0 p.finalize.program.code ↔ Stamped p.substitute.program.latest := by
  have hstorable : ∀ i ∈ p.substitute.program.code, i.operation.Storable :=
    fun i hi => h i (List.mem_reverse.mp hi)
  rw [(finalize_eq h).1, runsSoundly_closed_iff hstorable]
  constructor
  · rintro ⟨hstamps, -⟩
    exact .of_simulate? h hstamps
  · intro hstamped
    exact ⟨hstamped.simulate?_reverse, hstamped.pointer_eq.trans hdepth.symm⟩

/-- No call of a sealed program takes a negative number of operands. -/
theorem finalize_countable (h : p.substitute.program.Holds Operation.Storable) :
    ∀ i ∈ p.finalize.program.code, i.operation.Countable := by
  rw [(finalize_eq h).1, List.forall_mem_append, List.forall_mem_singleton]
  refine ⟨fun i hi => (h i (List.mem_reverse.mp hi)).countable, ?_⟩
  exact nofun

/-- The check accepts a sealed program if the books of its fused code are right. -/
theorem Booked.verify_finalize (h : p.substitute.program.Booked) :
    p.finalize.program.verify.findings = [] ∧
      p.finalize.program.verify.finalDepth = p.substitute.program.stackPos ∧
      p.finalize.program.verify.maxDepth ≤ p.finalize.program.highWater := by
  obtain ⟨hcode, hsealed, hwater⟩ := finalize_eq h.stamped.storable
  have hcount := finalize_countable h.stamped.storable
  have hsound := (runsSoundly_finalize_iff h.stamped.storable h.depth).mpr h.stamped
  have hstamps : ∀ i ∈ p.finalize.program.code, i.stackPos ≤ p.finalize.program.highWater := by
    rw [hcode, hwater, List.forall_mem_append, List.forall_mem_singleton]
    refine ⟨fun i hi => h.covered i (List.mem_reverse.mp hi), ?_⟩
    exact h.depth ▸ h.isCovered.topPos_le
  have hpeak := peak_le_of_sealed hsealed hsound hcount fun before i after hsplit => by
    rw [(hsound before i after hsplit).stamp]
    exact hstamps i (by simp [hsplit])
  obtain ⟨hfinal, hmax⟩ := verify_depths hcount hsound
  refine ⟨(verify_findings_iff hcount).mpr ⟨hsealed, hsound, hpeak⟩, ?_, hmax ▸ hpeak⟩
  have hend : pointer 0 (p.substitute.program.code.map Instruction.operation) =
      p.substitute.program.stackPos := h.stamped.pointer_eq.trans h.depth.symm
  rw [hfinal, operations, operationsOf, ← code, hcode, List.map_append, List.map_singleton,
    pointer_concat, hend]
  rfl

end Program

/-- The books stay right when the code of tokens is fused. -/
theorem TokensPushed.substitute_booked [Arithmetic α] {config : Config} {draws : Nat → α}
    {tokens : List (Token α)} {q : Program α} (h : TokensPushed { config, draws } tokens q) :
    q.substitute.program.Booked := by
  have hbooked := h.booked (.start config draws)
  exact hbooked.substitute (h.conventional fun i hi => absurd hi List.not_mem_nil)

/-- The books of the fused code of an accepted expression are right, and one value is left. -/
theorem Assembler.assemble_booked [Arithmetic α] {a : Assembler α} {source : String}
    {p : Program α} (hok : (a.assemble source).result = .ok p) :
    ∃ q : Program α, q.substitute.program.Booked ∧ q.substitute.program.stackPos = 1 ∧
      p = q.finalize.program := by
  obtain ⟨-, tokens, q, -, -, hpushed, hone, rfl⟩ := assemble_pushed hok
  exact ⟨q, hpushed.substitute_booked, q.substitute_frame.2.1.trans hone, rfl⟩

/-- An accepted expression is a stamped body and one end instruction. -/
theorem Assembler.assemble_body [Arithmetic α] {a : Assembler α} {source : String}
    {p : Program α} (hok : (a.assemble source).result = .ok p) :
    ∃ body, p.code = body ++ [⟨.stop, 1⟩] ∧
      simulate? 0 body = some (body.map Instruction.stackPos) ∧
      ∀ i ∈ body, i.operation.Storable := by
  obtain ⟨q, hbooked, hone, rfl⟩ := assemble_booked hok
  obtain ⟨hcode, -, -⟩ := Program.finalize_eq hbooked.stamped.storable
  rw [hone] at hcode
  exact ⟨q.substitute.program.code, hcode, hbooked.stamped.simulate?_reverse,
    fun i hi => hbooked.stamped.storable i (List.mem_reverse.mp hi)⟩

/-- The check accepts what an accepted expression is assembled to. -/
theorem Assembler.verify_assemble [Arithmetic α] {a : Assembler α} {source : String}
    {p : Program α} (hok : (a.assemble source).result = .ok p) :
    p.verify.findings = [] ∧ p.verify.finalDepth = 1 ∧ p.verify.maxDepth ≤ p.maxStackSize - 1 := by
  obtain ⟨q, hbooked, hone, rfl⟩ := assemble_booked hok
  obtain ⟨hfindings, hfinal, hmax⟩ := Program.Booked.verify_finalize hbooked
  refine ⟨hfindings, hfinal.trans hone, ?_⟩
  rw [Program.maxStackSize, Int.add_sub_cancel]
  exact hmax

/-- Compiling an expression never ends in a failed check. -/
theorem runCompile_lacks (s : Surroundings) (settings : Settings) (source : String) :
    (runCompile s settings source).failure.Lacks checkCode := by
  unfold runCompile
  dsimp only
  split
  · rename_i failure hprepared
    refine FailsWithout.bind (readDelimiter_lacks _) (fun delimiter => ?_) failure hprepared
    refine (readBindings_lacks _).bind fun bindings => ?_
    split
    · exact .ok _
    · exact .error (SyntaxError.failure_lacks _)
  · split
    · exact SyntaxError.failure_lacks _
    · rename_i p hok
      have hchecked : p.verify.failure = [] := by
        rw [Verification.failure, (Assembler.verify_assemble hok).1]
        rfl
      rw [hchecked]
      split
      · exact List.not_mem_nil
      · split
        · exact List.not_mem_nil
        · rename_i failure hreport
          exact p.report_lacks _ _ _ _ failure hreport

/-- A command with its settings does not end in a failed check if it never does. -/
theorem withSettings_lacks {s : Surroundings} {arguments : Arguments} {run : Settings → Outcome}
    (hrun : ∀ settings, (run settings).failure.Lacks checkCode) :
    (withSettings s arguments run).failure.Lacks checkCode := by
  unfold withSettings
  split
  · rename_i failure hfile
    exact settingsFile_lacks s arguments failure hfile
  · exact hrun _

/-- No command line ends in a failed check. -/
theorem runCommandLine_lacks (s : Surroundings) (args : List String) :
    (runCommandLine s args).failure.Lacks checkCode := by
  unfold runCommandLine
  split
  · rename_i request _
    unfold Request.run
    split
    · exact withSettings_lacks fun settings => runCompile_lacks s settings _
    · refine withSettings_lacks fun settings => ?_
      unfold runVersion
      split <;> exact List.not_mem_nil
    · exact List.not_mem_nil
  · rename_i failure hrequest
    exact readRequest_lacks args failure hrequest

/-- Whatever the delimiter, the variables and the settings, the check accepts what an expression is
assembled to: it finds nothing, one value is left, and the high-water mark covers every depth. The
program is a body whose stamps are the simulated depths, without underflow, with stored calls only
and without an end, then the end instruction. So no command line fails with the code of a failed
check. -/
theorem assembled_program_verifies [Arithmetic α] :
    (∀ (a : Assembler α) (source : String) (p : Program α), (a.assemble source).result = .ok p →
      p.verify.findings = [] ∧ p.verify.finalDepth = 1 ∧
        p.verify.maxDepth ≤ p.maxStackSize - 1 ∧
        ∃ body, p.code = body ++ [⟨.stop, 1⟩] ∧
          simulate? 0 body = some (body.map Instruction.stackPos) ∧
          ∀ i ∈ body, i.operation.Storable) ∧
      ∀ (s : Surroundings) (args : List String),
        (runCommandLine s args).failure.hasCode "E4006" = false := by
  refine ⟨fun a source p hok => ?_, fun s args => ?_⟩
  · obtain ⟨hfindings, hfinal, hmax⟩ := Assembler.verify_assemble hok
    exact ⟨hfindings, hfinal, hmax, Assembler.assemble_body hok⟩
  · exact (runCommandLine_lacks s args).hasCode_eq_false

/-- An assembler for machine numbers with one variable and all rules on. -/
def foldingAssembler : Assembler Float where
  slots := [("x", "x")]
  config := { constantFolding := true, linearFolding := true }
  number := fun text => if text = "2" then some 2 else none
  draws := fun _ => 0

/-- The check accepts an expression whose power is replaced, whose difference is carried through a
sum, and whose sums are fused. -/
theorem assembled_program_verifies_polynomial :
    ∃ p : Program Float, (foldingAssembler.assemble "x,2,^,x,x,*,+,2,-").result = .ok p ∧
      p.verify.findings = [] ∧ p.verify.finalDepth = 1 ∧
      p.verify.maxDepth ≤ p.maxStackSize - 1 ∧
      ∃ body, p.code = body ++ [⟨.stop, 1⟩] ∧
        simulate? 0 body = some (body.map Instruction.stackPos) ∧
        ∀ i ∈ body, i.operation.Storable := by
  have htokens : foldingAssembler.tokens "x,2,^,x,x,*,+,2,-" =
      ["x", "2", "^", "x", "x", "*", "+", "2", "-"] := by cbv
  have hreads : foldingAssembler.Reads ["x", "2", "^", "x", "x", "*", "+", "2", "-"] _ :=
    .cons rfl <| .cons rfl <| .cons rfl <| .cons rfl <| .cons rfl <| .cons rfl <| .cons rfl <|
      .cons rfl <| .cons rfl .nil
  obtain ⟨q, -, hok⟩ := Assembler.assemble_accepts (by cbv) (htokens ▸ hreads) rfl
  exact ⟨_, hok, assembled_program_verifies.1 _ _ _ hok⟩

end StackCode
