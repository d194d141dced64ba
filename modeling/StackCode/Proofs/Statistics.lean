import StackCode.Program.Stats
import StackCode.Proofs.FusionBlocks
import StackCode.Proofs.StackCost

/-!
# What the statistics say about fusion

The statistics count the instructions of a program by what they do, and tell a call that comes from
fusion by its routine alone. Each pair that the fusion pass makes takes one call away and leaves a
call of a routine that is in its rules. No named routine is one of these. So without folding the
fused calls of a program are as many as the instructions that fusion took away, and all other counts
are those of the plain program.
-/

namespace StackCode

universe u

variable {α : Type u}

/-- A fused call refers to a routine of the rules. -/
theorem FusedCall.isFused_eq {next tail c : Call α} (h : FusedCall next tail c) :
    c.isFused = true := by
  have hpairs : ∀ r ∈ pairRules, r.routine.isFused = true := by decide
  have hpowers : ∀ r ∈ powerRules, r.routine.isFused = true := by decide
  cases h with
  | pair hrule _ _ _ _ => exact hpairs _ hrule
  | power hrule _ _ _ => exact hpowers _ hrule

/-- No named routine comes from fusion. -/
theorem catalog_unfused : ∀ entry ∈ catalog, entry.routine.isFused = false := by decide

namespace FusionBlock

/-- Whether a block is of two instructions. -/
def isPair : FusionBlock α → Bool
  | .kept _ => false
  | .fused .. => true

variable {f : Instruction α → Bool} {k : Bool}

/-- A pair has one instruction less after the pass, which was a call. -/
theorem countP_source (hcalls : ∀ c pos, f ⟨.call c, pos⟩ = k) (b : FusionBlock α) :
    b.source.countP f = [b.result].countP f + (k && b.isPair).toNat := by
  cases b with
  | kept i => simp [isPair]
  | fused tail next tailPos nextPos call _ _ _ =>
    cases k <;> simp [source, result, isPair, hcalls]

/-- Blocks have one instruction less after the pass for each pair, and it was a call. -/
theorem countP_flatMap_source (hcalls : ∀ c pos, f ⟨.call c, pos⟩ = k)
    (blocks : List (FusionBlock α)) :
    (blocks.flatMap source).countP f =
      (blocks.map result).countP f + blocks.countP fun b => k && b.isPair := by
  induction blocks with
  | nil => rfl
  | cons b rest ih =>
    have hrest : ((b :: rest).map result).countP f =
        [b.result].countP f + (rest.map result).countP f := by
      rw [← List.countP_append]
      rfl
    have hpairs : (b :: rest).countP (fun b => k && b.isPair) =
        rest.countP (fun b => k && b.isPair) + (k && b.isPair).toNat := by
      cases h : k && b.isPair <;> simp [h]
    rw [List.flatMap_cons, List.countP_append, countP_source hcalls, ih, hrest, hpairs]
    omega

/-- The fused calls after the pass are the pairs, if there were none before. -/
theorem countP_isFusedCall {blocks : List (FusionBlock α)}
    (hnone : ∀ i ∈ blocks.flatMap source, i.isFusedCall = false) :
    (blocks.map result).countP Instruction.isFusedCall = blocks.countP isPair := by
  rw [List.countP_map]
  refine List.countP_congr fun b hb => ?_
  cases b with
  | kept i =>
    have hkept := hnone i (List.mem_flatMap.mpr ⟨_, hb, List.mem_singleton_self i⟩)
    simp [isPair, hkept]
  | fused tail next tailPos nextPos call _ hcall _ =>
    simp [isPair, result, Instruction.isFusedCall, hcall.isFused_eq]

end FusionBlock

/-- Instructions of a kind that calls belong to get fewer by the fused calls, and those of another
kind stay as many, if no call was fused before. -/
theorem countP_fusedLatest {f : Instruction α → Bool} {k : Bool}
    (hcalls : ∀ c pos, f ⟨.call c, pos⟩ = k) {latest : List (Instruction α)}
    (hnone : ∀ i ∈ latest, i.isFusedCall = false) :
    latest.countP f = (fusedLatest latest).countP f +
      if k then (fusedLatest latest).countP Instruction.isFusedCall else 0 := by
  obtain ⟨blocks, hsource, hresult, -⟩ := fusedLatest_blocks latest
  have hcount := FusionBlock.countP_flatMap_source hcalls blocks
  have hfused : (fusedLatest latest).countP Instruction.isFusedCall =
      blocks.countP FusionBlock.isPair := by
    rw [← List.countP_reverse, hresult]
    refine FusionBlock.countP_isFusedCall fun i hi => hnone i ?_
    rwa [← hsource, List.mem_reverse] at hi
  rw [← hsource, ← hresult, List.countP_reverse, List.countP_reverse] at hcount
  rw [hcount, hfused]
  cases k <;> simp

/-- Every stored operation is a value, a call or an assignment. -/
theorem length_eq_countP {latest : List (Instruction α)}
    (h : ∀ i ∈ latest, i.operation.Storable) :
    latest.length = latest.countP Instruction.isValue + latest.countP Instruction.isCall +
      latest.countP Instruction.isAssign := by
  induction latest with
  | nil => rfl
  | cons i rest ih =>
    obtain ⟨hi, hrest⟩ := List.forall_mem_cons.mp h
    have hone : (if i.isValue then 1 else 0) + (if i.isCall then 1 else 0) +
        (if i.isAssign then 1 else 0) = 1 := by
      unfold Instruction.isValue Instruction.isCall Instruction.isAssign
      cases ho : i.operation with
      | value v => rfl
      | call c => rfl
      | assign a => rfl
      | stop => exact absurd ho hi.ne_stop
    have hlength := ih hrest
    simp only [List.countP_cons, List.length_cons]
    omega

/-- Two programs have the same code and the same depths. -/
structure Program.SameCode (p q : Program α) : Prop where
  latest : p.latest = q.latest
  stackPos : p.stackPos = q.stackPos
  highWater : p.highWater = q.highWater

/-- Programs with the same code have it after the same operation is stored at the same depth. -/
theorem Program.SameCode.stored {p q : Program α} (h : p.SameCode q) (o : Operation α) (d : Int) :
    (p.stored o d).SameCode (q.stored o d) :=
  ⟨congrArg (List.cons (⟨o, d⟩ : Instruction α)) h.latest, rfl, congrArg (max · d) h.highWater⟩

variable [Arithmetic α]

section Pushes

variable {p q p' q' : Program α} {t : Token α} {tokens : List (Token α)}

/-- Without folding, a token does the same to the code under all settings. -/
theorem TokenPushed.sameCode (h : TokenPushed p t q) (h' : TokenPushed p' t q')
    (hnothing : p.config.FoldsNothing) (hnothing' : p'.config.FoldsNothing)
    (hsame : p.SameCode p') : q.SameCode q' := by
  cases h with
  | literal x =>
    cases h'
    rw [hsame.stackPos]
    exact hsame.stored _ _
  | slot name source =>
    cases h'
    rw [hsame.stackPos]
    exact hsame.stored _ _
  | call _ h =>
    cases h' with
    | call _ h' =>
      rw [h.eq_stored hnothing, h'.eq_stored hnothing', hsame.stackPos]
      exact hsame.stored _ _
  | assign name target _ =>
    cases h'
    rw [hsame.stackPos]
    exact ⟨congrArg (List.cons _) hsame.latest, rfl, hsame.highWater⟩

/-- Without folding, tokens give the same code under all settings. -/
theorem TokensPushed.sameCode (h : TokensPushed p tokens q) (h' : TokensPushed p' tokens q')
    (hnothing : p.config.FoldsNothing) (hnothing' : p'.config.FoldsNothing)
    (hsame : p.SameCode p') : q.SameCode q' := by
  induction h generalizing p' with
  | nil =>
    cases h'
    exact hsame
  | cons _ h _ ih =>
    cases h' with
    | cons _ h' hrest' =>
      refine ih hrest' ?_ ?_ (h.sameCode h' hnothing hnothing' hsame)
      · rwa [h.config_eq]
      · rwa [h'.config_eq]

/-- Without folding, no call of an expression is fused before the program is sealed. -/
theorem TokensPushed.unfused (h : TokensPushed p tokens q) (hnothing : p.config.FoldsNothing)
    (hp : ∀ i ∈ p.latest, i.isFusedCall = false) : ∀ i ∈ q.latest, i.isFusedCall = false := by
  have hcalls : FoldClosed p.config fun o : Operation α => ∀ c, o = .call c → c.isFused = false :=
    foldClosed_calls (fun _ hc _ => hc) (fun hlinear => absurd hlinear hnothing.2)
      fun hlinear => absurd hlinear hnothing.2
  have hunfused (i : Instruction α) :
      i.isFusedCall = false ↔ ∀ c, i.operation = .call c → c.isFused = false := by
    unfold Instruction.isFusedCall
    cases i.operation <;> simp
  simp only [hunfused] at hp ⊢
  exact h.holds hcalls hp fun t ht =>
    ht.pushed_calls (Q := fun c => c.isFused = false) fun entry hentry _ =>
      catalog_unfused entry hentry

end Pushes

namespace Program

variable {p q : Program α}

/-- Programs with the same code have the same statistics. -/
theorem SameCode.stats_eq (h : p.SameCode q) : p.stats = q.stats := by
  simp only [stats, size, maxStackSize, h.latest, h.highWater]

/-- The statistics before the fusion pass, from those after it: each fused call stands for one call
more. -/
theorem stats_substitute (hoptimizer : p.config.optimizer = true)
    (hnone : ∀ i ∈ p.latest, i.isFusedCall = false) :
    let fused := p.substitute.program.stats
    p.stats = { fused with
      instructionCount := fused.instructionCount + fused.fusedCount
      callCount := fused.callCount + fused.fusedCount
      fusedCount := 0 } := by
  intro fused
  have hlatest : p.substitute.program.latest = fusedLatest p.latest := by
    rw [p.substitute_latest, if_pos hoptimizer]
  have hwater : p.substitute.program.highWater = p.highWater := p.substitute_frame.2.2
  have hall := countP_fusedLatest (f := fun _ => true) (fun _ _ => rfl) hnone
  have hcalls := countP_fusedLatest (f := Instruction.isCall) (fun _ _ => rfl) hnone
  have hvalues := countP_fusedLatest (f := Instruction.isValue) (fun _ _ => rfl) hnone
  have hvariables := countP_fusedLatest (f := Instruction.isVariable) (fun _ _ => rfl) hnone
  have hassigns := countP_fusedLatest (f := Instruction.isAssign) (fun _ _ => rfl) hnone
  have hfused : p.latest.countP Instruction.isFusedCall = 0 := by
    simpa [List.countP_eq_zero] using hnone
  simp only [List.countP_true, if_true, Bool.false_eq_true, if_false, Nat.add_zero] at *
  simp only [fused, stats, size, maxStackSize, hlatest, hwater, Stats.mk.injEq]
  exact ⟨hall, hvalues, hvariables, hcalls, hfused, hassigns, trivial⟩

/-- Sealing adds the end instruction to the statistics of the fused code. -/
theorem stats_finalize (h : p.substitute.program.Holds Operation.Storable) :
    p.finalize.program.stats = { p.substitute.program.stats with
      instructionCount := p.substitute.program.stats.instructionCount + 1 } := by
  obtain ⟨hcode, -, hwater⟩ := finalize_eq h
  have hlatest : p.finalize.program.latest =
      ⟨.stop, p.substitute.program.stackPos⟩ :: p.substitute.program.latest := by
    rw [← List.reverse_inj]
    simpa [code] using hcode
  simp only [stats, size, maxStackSize, hlatest, hwater]
  rfl

/-- A sealed program has one instruction besides its values, calls and assignments. -/
theorem stats_total (h : p.substitute.program.Holds Operation.Storable) :
    p.finalize.program.stats.instructionCount = p.finalize.program.stats.valueCount +
      p.finalize.program.stats.callCount + p.finalize.program.stats.assignCount + 1 := by
  rw [stats_finalize h]
  exact congrArg (· + 1) (length_eq_countP h)

end Program

/-- The statistics account for fusion exactly. For every expression that is accepted, compare what it
is assembled to without the optimizer and with fusion alone. The fused calls are as many as the
instructions, and as the calls, that fusion took away. The values, those of variables, the
assignments and the stack are counted the same in both, no call of the plain program is fused, and
in both there is one instruction besides values, calls and assignments. -/
theorem statistics_account_for_fusion (a : Assembler α) (source : String) (plain fusing : Config)
    (hplain : plain.optimizer = false) (hfusing : fusing.optimizer = true)
    (hconstant : fusing.constantFolding = false) (hlinear : fusing.linearFolding = false)
    (haccepted : ∃ r, (a.assemble source).result = .ok r) :
    ∃ p q, ({ a with config := plain }.assemble source).result = .ok p ∧
      ({ a with config := fusing }.assemble source).result = .ok q ∧
      (q.stats.fusedCount : Int) = p.stats.instructionCount - q.stats.instructionCount ∧
      (q.stats.fusedCount : Int) = p.stats.callCount - q.stats.callCount ∧
      q.stats.valueCount = p.stats.valueCount ∧
      q.stats.variableCount = p.stats.variableCount ∧
      q.stats.assignCount = p.stats.assignCount ∧
      q.stats.maxStackSize = p.stats.maxStackSize ∧
      p.stats.fusedCount = 0 ∧
      ∀ s ∈ [p.stats, q.stats],
        s.instructionCount = s.valueCount + s.callCount + s.assignCount + 1 := by
  obtain ⟨r, hr⟩ := haccepted
  obtain ⟨hblank, tokens, -, hreads, hdepth, -⟩ := Assembler.assemble_pushed hr
  obtain ⟨p, hp, hpok⟩ :=
    Assembler.assemble_accepts (a := { a with config := plain }) hblank hreads hdepth
  obtain ⟨q, hq, hqok⟩ :=
    Assembler.assemble_accepts (a := { a with config := fusing }) hblank hreads hdepth
  have hplainNothing : plain.FoldsNothing := .of_plain hplain
  have hfusingNothing : fusing.FoldsNothing := by
    simp [Config.FoldsNothing, Config.FoldsLiterals, Config.FoldsLinear, hconstant, hlinear]
  -- Both programs have the same code before they are sealed, and only the second one is fused.
  have hsame : p.stats = q.stats :=
    (hp.sameCode hq hplainNothing hfusingNothing ⟨rfl, rfl, rfl⟩).stats_eq
  have hkept : p.substitute.program = p := by
    simp [Program.substitute, hp.config_eq, Assembler.start, hplain]
  have hfused := Program.stats_substitute (hq.config_eq ▸ hfusing)
    (hq.unfused hfusingNothing fun i hi => absurd hi List.not_mem_nil)
  have hpsealed := Program.stats_finalize hp.substitute_booked.stamped.storable
  have hqsealed := Program.stats_finalize hq.substitute_booked.stamped.storable
  rw [hkept, hsame, hfused] at hpsealed
  have htotals : ∀ s ∈ [p.finalize.program.stats, q.finalize.program.stats],
      s.instructionCount = s.valueCount + s.callCount + s.assignCount + 1 := by
    rw [List.forall_mem_cons, List.forall_mem_singleton]
    exact ⟨Program.stats_total hp.substitute_booked.stamped.storable,
      Program.stats_total hq.substitute_booked.stamped.storable⟩
  refine ⟨_, _, hpok, hqok, ?_⟩
  rw [hpsealed, hqsealed] at htotals ⊢
  exact ⟨by dsimp only; omega, by dsimp only; omega, rfl, rfl, rfl, rfl, rfl, htotals⟩

/-- Of four operators in a row, the first two and the last two are fused, which leaves two calls. -/
theorem statistics_account_for_fusion_assignment :
    ∃ p q, ((pairAssembler { optimizer := false }).assemble
        "x,x,y,2,x,2,*,+,/,-,=x").result = .ok p ∧
      ((pairAssembler {}).assemble "x,x,y,2,x,2,*,+,/,-,=x").result = .ok q ∧
      (q.stats.fusedCount : Int) = p.stats.instructionCount - q.stats.instructionCount ∧
      q.stats.maxStackSize = p.stats.maxStackSize ∧
      p.stats = ⟨12, 6, 4, 4, 0, 1, 7⟩ ∧ q.stats = ⟨10, 6, 4, 2, 2, 1, 7⟩ := by
  have htokens (config : Config) : (pairAssembler config).tokens "x,x,y,2,x,2,*,+,/,-,=x" =
      ["x", "x", "y", "2", "x", "2", "*", "+", "/", "-", "=x"] := by cbv
  have hblank : (trimChars "x,x,y,2,x,2,*,+,/,-,=x".toList).isEmpty = false := by cbv
  have hplain := Assembler.assemble_eq (a := pairAssembler { optimizer := false })
    hblank (htokens _) rfl rfl
  have hfusing := Assembler.assemble_eq (a := pairAssembler {})
    hblank (htokens _) rfl rfl
  obtain ⟨p, q, hp, hq, hfused, -, -, -, -, hstack, -, -⟩ := statistics_account_for_fusion
    (pairAssembler {}) "x,x,y,2,x,2,*,+,/,-,=x" { optimizer := false } {} rfl rfl rfl rfl
    ⟨_, hfusing⟩
  refine ⟨p, q, hp, hq, hfused, hstack, ?_, ?_⟩
  · rw [Except.ok.inj (hp.symm.trans hplain)]
    decide +kernel
  · rw [Except.ok.inj (hq.symm.trans hfusing)]
    decide +kernel

end StackCode
