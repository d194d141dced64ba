import Mathlib.Data.List.Chain
import StackCode.Proofs.Steadiness

/-!
# The blocks of the fusion pass

The fusion pass goes through a sequence once, and offers each instruction to the one stored before
it, which may itself come from a fusion. A fused call has another name, another routine or another
operand count than every rule asks for, so it takes in no further call and is taken in by none.

The pass therefore cuts the sequence, in order, into blocks of one or two instructions. A block of
one is stored as it is, and a block of two becomes the call of the rule that the two calls match.
Pairs are taken from the left: a block starts where the block before it takes in nothing more.
-/

namespace StackCode

universe u

variable {α : Type u}

/-- The first call of a fused pair is an operator of two operands, which no fused call is. -/
theorem FusedCall.not_tail {next tail c after d : Call α} (h : FusedCall next tail c) :
    ¬FusedCall after c d := by
  intro hagain
  cases h with
  | pair hrule _ _ _ _ =>
    cases hagain with
    | pair _ _ htwo _ _ => exact absurd htwo (by simp)
    | power hother _ _ hpower =>
      have hroutine := Routine.builtin.inj (Option.some.inj hpower)
      exact pairRules_routine _ hrule (hroutine ▸ powerRules_power _ hother)
  | power hrule _ _ _ =>
    obtain ⟨hinner, hroutine⟩ := powerRules_final _ hrule
    cases hagain with
    | pair hother _ _ _ hname => exact hinner _ hother hname
    | power hother _ _ hpower =>
      exact hroutine _ hother (Routine.builtin.inj (Option.some.inj hpower))

/-- The second of two fused calls is an operator of two operands, which no fused call is. -/
theorem FusedCall.not_next {next tail c before d : Call α} (h : FusedCall next tail c) :
    ¬FusedCall c before d := by
  intro hagain
  obtain ⟨htwo, hsymbol⟩ : c.arity = 2 ∧ c.name ∈ ["+", "-", "*", "/"] := by
    cases hagain with
    | pair hother htwo _ hname _ => exact ⟨htwo, hname ▸ pairRules_outer _ hother⟩
    | power hother htwo hname _ => exact ⟨htwo, hname ▸ (powerRules_outer _ hother).1⟩
  cases h with
  | pair _ _ _ _ _ => exact absurd htwo (by simp)
  | power hrule _ _ _ => exact (powerRules_outer _ hrule).2 hsymbol

/-- Two calls that a rule for powers fuses match no rule for pairs, which are tried first. -/
theorem fuse?_unpaired {next tail c : Call α} {stackPos : Int} {event : Event α}
    (h : fuse? next tail stackPos = some (c, event)) (hpower : c.arity = 2)
    (htail : tail.arity = 2) : ∀ r ∈ pairRules, next.name = r.outer → tail.name ≠ r.inner := by
  unfold fuse? at h
  split at h
  · contradiction
  · split at h
    · rename_i d r hpair
      cases h
      rw [fusePair?, if_pos htail] at hpair
      obtain ⟨r, -, heq⟩ := Option.map_eq_some_iff.mp hpair
      cases heq
      exact absurd hpower (by simp)
    · rename_i hpair
      rw [fusePair?, if_pos htail, Option.map_eq_none_iff, List.find?_eq_none] at hpair
      intro r hr houter hinner
      exact hpair r hr (by simp [houter, hinner])

/-- What the fusion pass makes of one instruction, or of two adjacent ones. -/
inductive FusionBlock (α : Type u) where
  /-- An instruction that is stored as it is. -/
  | kept (i : Instruction α)
  /-- Two stored calls, `tail` and then `next`, and the call of the rule that they match; a rule for
  powers only counts if they match none for pairs. -/
  | fused (tail next : Call α) (tailPos nextPos : Int) (call : Call α)
      (hstored : tail.binary = false ∧ next.binary = false) (hcall : FusedCall next tail call)
      (hunpaired : call.arity = 2 → tail.arity = 2 →
        ∀ r ∈ pairRules, next.name = r.outer → tail.name ≠ r.inner)

namespace FusionBlock

/-- The instructions of a block before the pass. -/
def source : FusionBlock α → List (Instruction α)
  | .kept i => [i]
  | .fused tail next tailPos nextPos _ _ _ _ => [⟨.call tail, tailPos⟩, ⟨.call next, nextPos⟩]

/-- The instruction of a block after the pass, which stands where the last one stood. -/
def result : FusionBlock α → Instruction α
  | .kept i => i
  | .fused _ _ _ nextPos call _ _ _ => ⟨.call call, nextPos⟩

@[simp] theorem source_kept (i : Instruction α) : (kept i).source = [i] := rfl

@[simp] theorem result_kept (i : Instruction α) : (kept i).result = i := rfl

/-- The instructions of a block that are no stored calls are the same after the pass. -/
theorem filter_source (b : FusionBlock α) :
    b.source.filter (·.kind != .call) = [b.result].filter (·.kind != .call) := by
  cases b with
  | kept i => rfl
  | fused tail next tailPos nextPos call hstored hcall _ =>
    have hbinary : call.binary = false := by cases hcall <;> rfl
    simp [source, result, Instruction.kind, Operation.kind, hstored, hbinary]

/-- The instructions of blocks that are no stored calls are the same after the pass. -/
theorem filter_flatMap_source (blocks : List (FusionBlock α)) :
    (blocks.flatMap source).filter (·.kind != .call) =
      (blocks.map result).filter (·.kind != .call) := by
  induction blocks with
  | nil => rfl
  | cons b rest ih =>
    rw [List.flatMap_cons, List.filter_append, filter_source, ih, ← List.filter_append]
    rfl

/-- A block starts with an instruction that the block before it does not take in. -/
def Refuses (b after : FusionBlock α) : Prop :=
  ∀ i ∈ after.source.head?, fuseInstructions? i b.result = none

end FusionBlock

/-- Two instructions that are fused are a block. -/
theorem exists_fusionBlock {next tail fused : Instruction α} {event : Event α}
    (h : fuseInstructions? next tail = some (fused, event)) :
    ∃ b : FusionBlock α, b.source = [tail, next] ∧ b.result = fused := by
  obtain ⟨n, t, c, hnext, htail, hn, ht, hcall, hfused⟩ := fuseInstructions?_fused h
  obtain ⟨next, nextPos⟩ := next
  obtain ⟨tail, tailPos⟩ := tail
  cases hnext
  cases htail
  simp only [fuseInstructions?, hn, ht, Bool.or_false, Bool.false_eq_true, if_false] at h
  obtain ⟨⟨d, _⟩, hfuse, heq⟩ := Option.map_eq_some_iff.mp h
  cases heq
  cases hfused
  exact ⟨.fused t n tailPos nextPos _ ⟨ht, hn⟩ hcall (fuse?_unpaired hfuse), rfl, rfl⟩

/-- A fused call is fused neither with the instruction after it nor with the one before it. -/
theorem FusedCall.final {next tail c : Call α} (h : FusedCall next tail c) (stackPos : Int)
    (i : Instruction α) : fuseInstructions? i ⟨.call c, stackPos⟩ = none ∧
      fuseInstructions? ⟨.call c, stackPos⟩ i = none := by
  constructor
  · rw [Option.eq_none_iff_forall_not_mem]
    rintro ⟨fused, event⟩ hagain
    obtain ⟨n, t, d, -, ht, -, -, hsecond, -⟩ := fuseInstructions?_fused hagain
    cases ht
    exact h.not_tail hsecond
  · rw [Option.eq_none_iff_forall_not_mem]
    rintro ⟨fused, event⟩ hagain
    obtain ⟨n, t, d, hn, -, -, -, hsecond, -⟩ := fuseInstructions?_fused hagain
    cases hn
    exact h.not_next hsecond

/-- What a block of two becomes is not fused again. -/
theorem FusionBlock.final {b : FusionBlock α} (hpair : b.source.length = 2) (i : Instruction α) :
    fuseInstructions? i b.result = none ∧ fuseInstructions? b.result i = none := by
  cases b with
  | kept j => simp at hpair
  | fused tail next tailPos nextPos call _ hcall _ => exact hcall.final nextPos i

/-- The fusion pass cuts a sequence into blocks, in order and from the left. -/
theorem fusedLatest_blocks (latest : List (Instruction α)) :
    ∃ blocks : List (FusionBlock α), latest.reverse = blocks.flatMap FusionBlock.source ∧
      (fusedLatest latest).reverse = blocks.map FusionBlock.result ∧
      blocks.IsChain FusionBlock.Refuses := by
  induction latest with
  | nil => exact ⟨[], rfl, rfl, .nil⟩
  | cons next rest ih =>
    obtain ⟨blocks, hsource, hresult, hchain⟩ := ih
    have hfused : fusedLatest (next :: rest) = fuseOnto (fusedLatest rest) next := rfl
    -- The last block so far is what the next instruction is offered to.
    rcases List.eq_nil_or_concat' blocks with rfl | ⟨blocks, last, rfl⟩
    · refine ⟨[.kept next], ?_, ?_, .singleton _⟩
      · simp [hsource]
      · have hempty : fusedLatest rest = [] := by simpa using hresult
        simp [hfused, hempty, fuseOnto]
    · have htail : fusedLatest rest = last.result :: (blocks.map FusionBlock.result).reverse := by
        rw [← List.reverse_inj, hresult]
        simp
      cases hfuse : fuseInstructions? next last.result with
      | none =>
        refine ⟨blocks ++ [last] ++ [.kept next], ?_, ?_, ?_⟩
        · simp [hsource]
        · simp [hfused, htail, fuseOnto, hfuse]
        · refine List.isChain_append.mpr ⟨hchain, .singleton _, ?_⟩
          simpa [FusionBlock.Refuses] using hfuse
      | some result =>
        obtain ⟨fused, event⟩ := result
        cases last with
        | fused _ _ _ nextPos _ _ hcall _ =>
          simp [(hcall.final nextPos next).1, FusionBlock.result] at hfuse
        | kept i =>
          rw [FusionBlock.result_kept] at hfuse htail
          obtain ⟨b, hpair, hcall⟩ := exists_fusionBlock hfuse
          refine ⟨blocks ++ [b], ?_, ?_, ?_⟩
          · simp [hsource, hpair]
          · simp [hfused, htail, fuseOnto, hcall, hfuse]
          · obtain ⟨hbefore, -, hlast⟩ := List.isChain_append.mp hchain
            refine List.isChain_append.mpr ⟨hbefore, .singleton _, ?_⟩
            simpa [FusionBlock.Refuses, hpair] using hlast

/-- The fusion pass loses, duplicates and reorders nothing. It cuts the code, in order, into blocks of
one or two adjacent instructions, each of which starts where the block before it takes in nothing
more. A block of one is stored as it is. A block of two consists of two stored calls, the second of
two operands, and becomes the call of the rule that they match, at the stack position of the second;
this call takes in no further call and is taken in by none. So all instructions but stored calls are
the same and in the same order. -/
theorem substitute_partitions_code (p : Program α) (hoptimizer : p.config.optimizer = true) :
    ∃ blocks : List (FusionBlock α),
      p.code = blocks.flatMap FusionBlock.source ∧
      p.substitute.program.code = blocks.map FusionBlock.result ∧
      blocks.IsChain FusionBlock.Refuses ∧
      (∀ b ∈ blocks, b.source.length = 2 → ∀ i,
        fuseInstructions? i b.result = none ∧ fuseInstructions? b.result i = none) ∧
      p.substitute.program.code.filter (·.kind != .call) = p.code.filter (·.kind != .call) := by
  obtain ⟨blocks, hsource, hresult, hchain⟩ := fusedLatest_blocks p.latest
  have hcode : p.substitute.program.code = blocks.map FusionBlock.result := by
    rw [Program.code, p.substitute_latest, if_pos hoptimizer, hresult]
  refine ⟨blocks, hsource, hcode, hchain, fun b _ hpair i => b.final hpair i, ?_⟩
  rw [hcode, Program.code, hsource, FusionBlock.filter_flatMap_source]

/-- A program that no producer of expressions makes: a power goes by the name of an addition, another
has seven operands, an operator was never stored as a call, and an end stands in the middle. -/
def oddProgram : Program Float where
  draws := fun _ => 0
  latest :=
    [ ⟨.call ⟨"*", some (.builtin .mul), 2, false⟩, 7⟩,
      ⟨.call ⟨"f", some (.builtin .pow3), 7, false⟩, 2⟩,
      ⟨.call ⟨"+", some (.builtin .add), 2, false⟩, 3⟩,
      ⟨.call (.operator "+" (some (.builtin .add))), -2⟩, ⟨.stop, 0⟩,
      ⟨.call ⟨"+", some (.builtin .add), 2, false⟩, 4⟩,
      ⟨.call ⟨"+", some (.builtin .add), 2, false⟩, 4⟩, ⟨.call ⟨"*", none, 2, false⟩, -1⟩,
      ⟨.call ⟨"+", some (.builtin .pow2), 2, false⟩, 5⟩, ⟨.value (.literal 1), 1⟩ ]
  stackPos := -4
  highWater := -9

/-- The ten instructions of the odd program are seven blocks. -/
theorem substitute_partitions_code_odd :
    oddProgram.config.optimizer = true ∧ oddProgram.size = 10 ∧
      ∃ blocks : List (FusionBlock Float), blocks.length = 7 ∧
        oddProgram.code = blocks.flatMap FusionBlock.source ∧
        oddProgram.substitute.program.code = blocks.map FusionBlock.result := by
  obtain ⟨blocks, hsource, hresult, -, -, -⟩ := substitute_partitions_code oddProgram rfl
  have hlength : oddProgram.substitute.program.code.length = 7 := by decide +kernel
  rw [hresult, List.length_map] at hlength
  exact ⟨rfl, rfl, blocks, hlength, hsource, hresult⟩

end StackCode
