import Mathlib.Tactic.FinCases
import StackCode.Proofs.Effect
import StackCode.Proofs.Exact
import StackCode.Proofs.Fusion

/-!
# Fusion keeps the effect

A fused call does the work of the two calls it comes from. For a pair of operators `a b c inner
outer` this holds by the grouping of the routine alone. For a power it takes the commutativity of
multiplication, once: the power multiplies its operand by the remaining copies, and the fused
routine multiplies the copies from the left.

The pass fuses greedily and offers a fused call to the next one again. Calls that keep to the
naming convention stay so under fusion, which carries the argument along sequences of any length.
-/

namespace StackCode

universe u

variable {α : Type u} [Arithmetic α]

/-- Every rule for a pair computes the outer operator on the first operand and the result of the
inner one. -/
theorem pairRules_rule : ∀ r ∈ pairRules, ∃ outer inner, operatorRoutine? r.outer = some outer ∧
    operatorRoutine? r.inner = some inner ∧ ∃ f g : α → α → α, outer.rule = .binary f ∧
      inner.rule = .binary g ∧ r.routine.rule = .ternary fun a b c => f a (g b c) := by
  intro r hr
  fin_cases hr <;> exact ⟨_, _, rfl, rfl, _, _, rfl, rfl, rfl⟩

/-- Every rule for a power computes the operator on the first operand and the product of the
copies, which the power alone groups the other way. -/
theorem powerRules_rule : ∀ r ∈ powerRules, ∃ outer n, operatorRoutine? r.outer = some outer ∧
    ∃ f : α → α → α, outer.rule = .binary f ∧
      r.power.rule = .unary (fun b : α => Arithmetic.mul b (Builtin.repeated b n)) ∧
      r.routine.rule = .binary fun a b => f a (Builtin.repeated b (n + 1)) := by
  intro r hr
  fin_cases hr
  · exact ⟨_, 0, rfl, _, rfl, rfl, rfl⟩
  · exact ⟨_, 1, rfl, _, rfl, rfl, rfl⟩
  · exact ⟨_, 2, rfl, _, rfl, rfl, rfl⟩
  · exact ⟨_, 0, rfl, _, rfl, rfl, rfl⟩
  · exact ⟨_, 1, rfl, _, rfl, rfl, rfl⟩
  · exact ⟨_, 2, rfl, _, rfl, rfl, rfl⟩

/-- A call that keeps to the convention computes what its operator symbol says. -/
theorem Call.Conventional.rule?_eq {c : Call α} (h : c.Conventional) (harity : c.arity = 2)
    {b : Builtin} (hname : operatorRoutine? c.name = some b) : c.rule? = some b.rule := by
  rw [rule?, h.operator harity b hname]
  rfl

/-- Two calls of two operands have the effect of one call of three. -/
theorem sameEffect_pair {next tail c : Call α} {f g : α → α → α}
    (hnext : next.rule? = some (.binary f)) (hnextArity : next.arity = 2)
    (htail : tail.rule? = some (.binary g)) (htailArity : tail.arity = 2)
    (hrule : c.rule? = some (.ternary fun x y z => f x (g y z))) (harity : c.arity = 3) :
    SameEffect [.call c] [.call tail, .call next] := by
  intro m rest
  simp only [List.cons_append, List.nil_append]
  rw [Machine.run_ternary hrule harity, Machine.run_binary htail htailArity]
  obtain ⟨stack, store, draws⟩ := m
  match stack with
  | [] => rfl
  | [x] => rfl
  | [y, x] => exact (Machine.run_binary hnext hnextArity ⟨[g x y], store, draws⟩ rest).symm
  | z :: y :: x :: below =>
    exact (Machine.run_binary hnext hnextArity ⟨g y z :: x :: below, store, draws⟩ rest).symm

/-- A call of one operand and then one of two have the effect of one call of two. -/
theorem sameEffect_power {next tail c : Call α} {f : α → α → α} {g : α → α}
    (hnext : next.rule? = some (.binary f)) (hnextArity : next.arity = 2)
    (htail : tail.rule? = some (.unary g)) (htailArity : tail.arity = 1)
    (hrule : c.rule? = some (.binary fun x y => f x (g y))) (harity : c.arity = 2) :
    SameEffect [.call c] [.call tail, .call next] := by
  intro m rest
  simp only [List.cons_append, List.nil_append]
  rw [Machine.run_binary hrule harity, Machine.run_unary htail htailArity]
  obtain ⟨stack, store, draws⟩ := m
  match stack with
  | [] => rfl
  | [y] => exact (Machine.run_binary hnext hnextArity ⟨[g y], store, draws⟩ rest).symm
  | y :: x :: below =>
    exact (Machine.run_binary hnext hnextArity ⟨g y :: x :: below, store, draws⟩ rest).symm

namespace FusedCall

variable {next tail c : Call α}

/-- The copies of a number may be multiplied from either end. -/
theorem repeated_succ (hcomm : ∀ x y : α, Arithmetic.mul x y = Arithmetic.mul y x) (b : α)
    (n : Nat) : Builtin.repeated b (n + 1) = Arithmetic.mul b (Builtin.repeated b n) :=
  hcomm (Builtin.repeated b n) b

/-- A fused pair of operators has the effect of the two calls it comes from. -/
theorem sameEffect_of_pair {r : PairRule} (hrule : r ∈ pairRules) (hnextArity : next.arity = 2)
    (htailArity : tail.arity = 2) (houter : next.name = r.outer) (hinner : tail.name = r.inner)
    (hnext : next.Conventional) (htail : tail.Conventional) :
    SameEffect [.call ⟨r.outer ++ r.inner, some (.builtin r.routine), 3, false⟩]
      [.call tail, .call next] := by
  obtain ⟨outer, inner, hout, hin, f, g, hf, hg, hfused⟩ := pairRules_rule (α := α) r hrule
  rw [← houter] at hout
  rw [← hinner] at hin
  refine sameEffect_pair (f := f) (g := g) ?_ hnextArity ?_ htailArity ?_ rfl
  · rw [hnext.rule?_eq hnextArity hout, hf]
  · rw [htail.rule?_eq htailArity hin, hg]
  · exact congrArg some hfused

/-- A fused call has the effect of the two calls it comes from. -/
theorem sameEffect (hcomm : ∀ x y : α, Arithmetic.mul x y = Arithmetic.mul y x)
    (h : FusedCall next tail c) (hnext : next.Conventional) (htail : tail.Conventional) :
    SameEffect [.call c] [.call tail, .call next] := by
  cases h with
  | pair hrule hnextArity htailArity houter hinner =>
    exact sameEffect_of_pair hrule hnextArity htailArity houter hinner hnext htail
  | @power r hrule hnextArity houter hpower =>
    obtain ⟨outer, n, hout, f, hf, hg, hfused⟩ := powerRules_rule (α := α) r hrule
    rw [← houter] at hout
    refine sameEffect_power (f := f) (g := fun b => Arithmetic.mul b (Builtin.repeated b n)) ?_
      hnextArity ?_ (htail.power _ (powerRules_power r hrule) hpower) ?_ rfl
    · rw [hnext.rule?_eq hnextArity hout, hf]
    · rw [Call.rule?, hpower]
      exact congrArg some hg
    · refine congrArg some (hfused.trans ?_)
      simp only [repeated_succ hcomm]

end FusedCall

/-- The fusion pass keeps the effect of a sequence if each fused call has the effect of the calls
it comes from, for calls with a property that fusion keeps. -/
theorem fusedLatest_sameEffect {P : Operation α → Prop}
    (hkept : ∀ n t c : Call α, FusedCall n t c → P (.call c))
    (hsame : ∀ n t c : Call α, FusedCall n t c → P (.call n) → P (.call t) →
      SameEffect [.call c] [.call t, .call n])
    {latest : List (Instruction α)} (h : ∀ i ∈ latest, P i.operation) :
    SameEffect (operationsOf (fusedLatest latest)) (operationsOf latest) := by
  induction latest with
  | nil => exact .refl _
  | cons next rest ih =>
    obtain ⟨hnext, hrest⟩ := List.forall_mem_cons.mp h
    have hfused := fusedLatest_holds hkept hrest
    have hbelow : SameEffect (operationsOf (next :: fusedLatest rest))
        (operationsOf (next :: rest)) := by
      rw [operationsOf_cons, operationsOf_cons]
      exact (ih hrest).append_right _
    refine SameEffect.trans ?_ hbelow
    change SameEffect (operationsOf (fuseOnto (fusedLatest rest) next)) _
    obtain heq | ⟨tail, before, fused, event, hlatest, hfuse, heq⟩ :=
      fuseOnto_cases (fusedLatest rest) next
    · rw [heq]
      exact .refl _
    · rw [heq, hlatest]
      rw [hlatest] at hfused
      obtain ⟨n, t, c, hn, ht, -, -, hcall, rfl⟩ := fuseInstructions?_fused hfuse
      have htail := (List.forall_mem_cons.mp hfused).1
      rw [hn] at hnext
      rw [ht] at htail
      simp only [operationsOf_cons, hn, ht, List.append_assoc, List.cons_append, List.nil_append]
      exact (hsame n t c hcall hnext htail).append_left _

/-- The fusion pass keeps the effect of a program that keeps to the convention. -/
theorem Program.substitute_sameEffect (hcomm : ∀ x y : α, Arithmetic.mul x y = Arithmetic.mul y x)
    {p : Program α} (hconventional : p.Holds Operation.Conventional) :
    SameEffect p.substitute.program.operations p.operations := by
  have hlatest := p.substitute_latest
  rw [operations, operations, hlatest]
  split
  · refine fusedLatest_sameEffect FusedCall.conventional_call ?_ hconventional
    exact fun n t c h hn ht => h.sameEffect hcomm (hn n rfl) (ht t rfl)
  · exact .refl _

/-- Fusion preserves what a program computes. Every sequence of instructions in which operator
symbols stand for their routines and small powers have one operand ends with the same stack and the
same slots after the fusion pass as before it, from every machine, or both stop short by the same
obstacle. Of the arithmetic only the commutativity of multiplication is used. -/
theorem fusion_preserves_evaluation (hcomm : ∀ x y : α, Arithmetic.mul x y = Arithmetic.mul y x)
    (p : Program α) (hconventional : ∀ i ∈ p.code, ∀ c, i.operation = .call c → c.Conventional)
    (m : Machine α) : p.substitute.program.evaluate m = p.evaluate m := by
  have hholds : p.Holds Operation.Conventional :=
    fun i hi => hconventional i (List.mem_reverse.mpr hi)
  exact (Program.substitute_sameEffect hcomm hholds).run_eq m

/-- The sum of a cube times a variable and a quotient, with the result stored. -/
def cubeProgram : Program ℚ where
  config := {}
  draws := fun _ => 0
  latest :=
    [ ⟨.stop, 1⟩, ⟨.assign ⟨"x", some "x"⟩, 1⟩, ⟨.call ⟨"+", some (.builtin .add), 2, false⟩, 2⟩,
      ⟨.call ⟨"/", some (.builtin .div), 2, false⟩, 3⟩, ⟨.value (.literal 5), 4⟩,
      ⟨.value (.ofSlot "x" (some "x")), 3⟩, ⟨.call ⟨"*", some (.builtin .mul), 2, false⟩, 2⟩,
      ⟨.call ⟨"^3", some (.builtin .pow3), 1, false⟩, 3⟩, ⟨.value (.literal 3), 3⟩,
      ⟨.value (.ofSlot "x" (some "x")), 2⟩, ⟨.value (.literal 0), 1⟩ ]

/-- The calls of the program keep to the convention. -/
theorem cubeProgram_conventional :
    ∀ i ∈ cubeProgram.code, ∀ c, i.operation = .call c → c.Conventional := by
  intro i hi c hc
  fin_cases hi <;> cases hc <;> exact ⟨by simp [operatorRoutine?], by simp [Call.UnaryPower]⟩

/-- Fusion shortens the program and keeps what it computes. -/
theorem fusion_preserves_evaluation_cube :
    (∀ x y : ℚ, Arithmetic.mul x y = Arithmetic.mul y x) ∧
      cubeProgram.substitute.program.size + 2 = cubeProgram.size ∧
      ∀ m : Machine ℚ, cubeProgram.substitute.program.evaluate m = cubeProgram.evaluate m := by
  have hcomm := rationalArithmetic_exact.linearLaws.swapped
  exact ⟨hcomm, rfl, fusion_preserves_evaluation hcomm cubeProgram cubeProgram_conventional⟩

end StackCode
