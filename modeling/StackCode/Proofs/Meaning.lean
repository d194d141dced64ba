import StackCode.Proofs.FoldingEffect
import StackCode.Proofs.FusionEffect
import StackCode.Proofs.Verification

/-!
# What assembled programs compute

The tokens of an accepted expression can be carried out in turn: the counted depth is the height of
the stack, so no operand is missing, and every named routine has a result on its operands. This
reading of an expression does not depend on any setting.

An assembled program has the effect of its tokens and an end instruction. Folding keeps it while
tokens are pushed, and fusion keeps it when the program is sealed. Over exact arithmetic all
settings therefore give the same value and the same slots.
-/

namespace StackCode

universe u

variable {α : Type u}

/-- Rules are made for operand counts that are not negative. -/
theorem Rule.Takes.nonneg {rule : Rule α} {n : Int} (h : rule.Takes n) : 0 ≤ n := by
  cases rule with
  | unary f => exact h ▸ by decide
  | binary f => exact h ▸ by decide
  | ternary f => exact h ▸ by decide
  | variadic f => exact h
  | draw => exact h ▸ Int.le_refl 0
  | whole f => exact h.elim

variable [Arithmetic α]

/-- A sound call that finds its operands is carried out. -/
theorem Call.Sound.step_ok {c : Call α} (h : c.Sound) {m : Machine α}
    (hle : c.arity ≤ m.stack.length) :
    ∃ next, m.call c = .ok next ∧ (next.stack.length : Int) = m.stack.length - c.arity + 1 := by
  obtain ⟨r, hroutine, htakes⟩ := h.takes
  have hnonneg := htakes.nonneg
  let operands := (m.stack.take c.arity.toNat).reverse
  let below := m.stack.drop c.arity.toNat
  have hlength : operands.length = c.arity.toNat := by
    rw [List.length_reverse, List.length_take]
    omega
  have harity : c.arity = operands.length := by omega
  have hstack : m.stack = operands.reverse ++ below := by
    rw [List.reverse_reverse, List.take_append_drop]
  obtain ⟨x, hx⟩ := Routine.apply_ok (harity ▸ htakes) (m.draws 0)
  refine ⟨_, Machine.call_ok hroutine harity hstack hx, ?_⟩
  change (((x :: below).length : Nat) : Int) = _
  rw [List.length_cons, List.length_drop]
  omega

/-- A sound operation that finds its operands is carried out, and moves the height of the stack as
the depth is counted. -/
theorem Operation.Sound.step_ok {o : Operation α} (h : o.Sound) {m : Machine α} {d : Int}
    (hdepth : o.depth? m.stack.length = some d) :
    ∃ next, m.step o = .ok next ∧ (next.stack.length : Int) = d := by
  cases o with
  | value v =>
    obtain ⟨x, hx⟩ := h m.store
    cases hdepth
    exact ⟨m.push x, by rw [Machine.step, hx], by simp [Machine.push]⟩
  | call c =>
    obtain ⟨hle, rfl⟩ := depth?_call_eq_some.mp hdepth
    exact Call.Sound.step_ok h hle
  | assign a =>
    obtain ⟨htwo, rfl⟩ := depth?_assign_eq_some.mp hdepth
    obtain ⟨slot, hslot⟩ := Option.isSome_iff_exists.mp h
    obtain ⟨_ | ⟨x, _ | ⟨y, below⟩⟩, store, draws⟩ := m
    · simp at htwo
    · simp at htwo
    · refine ⟨_, by rw [Machine.step, hslot], ?_⟩
      change (((x :: below).length : Nat) : Int) = ((x :: y :: below).length : Int) - 1
      simp
  | stop =>
    cases hdepth
    exact ⟨m, rfl, rfl⟩

/-- Accepted tokens are carried out up to the end, and the stack has the counted height. -/
theorem run_tokens (hzero : Arithmetic.isZero (Arithmetic.zero : α) = true)
    {tokens : List (Token α)} (hvalid : ∀ t ∈ tokens, t.Valid) {m : Machine α} {d : Int}
    (hdepth : recognize? m.stack.length tokens = some d) :
    ∃ final, m.run (tokens.map Token.operation ++ [.stop]) = .ok final ∧
      (final.stack.length : Int) = d := by
  induction tokens generalizing m with
  | nil =>
    cases hdepth
    exact ⟨m, rfl, rfl⟩
  | cons t rest ih =>
    obtain ⟨ht, hrest⟩ := List.forall_mem_cons.mp hvalid
    obtain ⟨e, he, hmore⟩ := Option.bind_eq_some_iff.mp hdepth
    obtain ⟨next, hstep, hheight⟩ := (ht.sound hzero).step_ok he
    rw [← hheight] at hmore
    obtain ⟨final, hrun, hfinal⟩ := ih hrest hmore
    have hstop : t.operation ≠ .stop := by
      cases t <;> simp [Token.operation]
    refine ⟨final, ?_, hfinal⟩
    rw [List.map_cons, List.cons_append, Machine.run_cons m hstop, hstep]
    exact hrun

namespace Assembler

variable {a : Assembler α} {source : String} {tokens : List (Token α)}

/-- An expression that is accepted by counting is assembled to a program with the effect of its
tokens and an end, if fusion keeps the effect of what the tokens store. -/
theorem assemble_sameEffect_of_fused (laws : FoldLaws α a.config)
    (hfused : ∀ q, TokensPushed a.start tokens q →
      SameEffect q.substitute.program.operations q.operations)
    (hblank : (trimChars source.toList).isEmpty = false)
    (hreads : a.Reads (a.tokens source) tokens) (hdepth : recognize? 0 tokens = some 1) :
    ∃ p, (a.assemble source).result = .ok p ∧
      SameEffect p.operations (tokens.map Token.operation ++ [.stop]) := by
  obtain ⟨q, hpushed, hok⟩ := assemble_accepts hblank hreads hdepth
  refine ⟨_, hok, ?_⟩
  have hstart : a.start.Booked := .start a.config a.draws
  have hconventional : q.Holds Operation.Conventional :=
    hpushed.conventional fun i hi => absurd hi List.not_mem_nil
  have hbooked := (hpushed.booked hstart).substitute hconventional
  have hsealed : q.finalize.program.operations = q.substitute.program.operations ++ [.stop] := by
    have hcode := congrArg (List.map Instruction.operation)
      (Program.finalize_eq hbooked.stamped.storable).1
    rw [List.map_append] at hcode
    exact hcode
  have hfolded : SameEffect q.operations (tokens.map Token.operation) :=
    hpushed.sameEffect laws fun i hi => absurd hi List.not_mem_nil
  rw [hsealed]
  exact ((hfused q hpushed).trans hfolded).append_right [.stop]

/-- An expression that is accepted by counting is assembled to a program with the effect of its
tokens and an end, if multiplication is commutative. -/
theorem assemble_sameEffect (laws : FoldLaws α a.config)
    (hcomm : ∀ x y : α, Arithmetic.mul x y = Arithmetic.mul y x)
    (hblank : (trimChars source.toList).isEmpty = false)
    (hreads : a.Reads (a.tokens source) tokens) (hdepth : recognize? 0 tokens = some 1) :
    ∃ p, (a.assemble source).result = .ok p ∧
      SameEffect p.operations (tokens.map Token.operation ++ [.stop]) := by
  refine assemble_sameEffect_of_fused laws (fun q hpushed => ?_) hblank hreads hdepth
  exact Program.substitute_sameEffect hcomm
    (hpushed.conventional fun i hi => absurd hi List.not_mem_nil)

end Assembler

/-- Over exact arithmetic the settings make no difference to what an expression computes. If an
expression is accepted, then it is accepted under all settings, and from the same slots and draws
every two of the programs end with the same single value, the same slots and the same draws. So
linear folding, constant folding and fusion, in any combination, agree with the program that is
assembled without the optimizer. -/
theorem linear_folding_preserves_evaluation {R : Type u} [CommRing R] [Arithmetic R]
    (hexact : Arithmetic.Exact R) (a : Assembler R) (source : String) (p : Program R)
    (hok : (a.assemble source).result = .ok p) (config : Config) :
    ∃ q, ({ a with config }.assemble source).result = .ok q ∧
      ∀ (store : Slot → R) (draws : Nat → R), ∃ x final, final.stack = [x] ∧
        p.evaluate ⟨[], store, draws⟩ = .ok final ∧
        q.evaluate ⟨[], store, draws⟩ = .ok final := by
  have hcomm := hexact.linearLaws.swapped
  obtain ⟨hblank, tokens, -, hreads, hdepth, -, -, -⟩ := Assembler.assemble_pushed hok
  obtain ⟨p', hok', hplain⟩ :=
    Assembler.assemble_sameEffect (hexact.foldLaws _) hcomm hblank hreads hdepth
  obtain ⟨q, hq, hsame⟩ :=
    Assembler.assemble_sameEffect (a := { a with config }) (hexact.foldLaws _) hcomm hblank hreads
      hdepth
  rw [hok] at hok'
  cases hok'
  refine ⟨q, hq, fun store draws => ?_⟩
  obtain ⟨final, hrun, hheight⟩ :=
    run_tokens (hexact.foldLaws config).zero hreads.valid (m := ⟨[], store, draws⟩) hdepth
  obtain ⟨x, hx⟩ := List.length_eq_one_iff.mp (Int.ofNat_inj.mp hheight)
  exact ⟨x, final, hx, (hplain.run_eq _).trans hrun, (hsame.run_eq _).trans hrun⟩

/-- An assembler for rational numbers with one variable and without the optimizer. -/
def plainAssembler : Assembler ℚ where
  slots := [("x", "x")]
  config := { optimizer := false }
  number := fun text => if text = "0" then some 0 else if text = "2" then some 2 else none
  draws := fun _ => 0

/-- All rules together keep what an expression computes that assigns, draws and raises to a
power. -/
theorem linear_folding_preserves_evaluation_assignment :
    ∃ p q, (plainAssembler.assemble "0,x,2,*,x,+,=x,rnd,+,x,2,^,+,2,-").result = .ok p ∧
      ({ plainAssembler with config := { constantFolding := true, linearFolding := true } }.assemble
        "0,x,2,*,x,+,=x,rnd,+,x,2,^,+,2,-").result = .ok q ∧
      ∀ (store : Slot → ℚ) (draws : Nat → ℚ), ∃ x final, final.stack = [x] ∧
        p.evaluate ⟨[], store, draws⟩ = .ok final ∧
        q.evaluate ⟨[], store, draws⟩ = .ok final := by
  have htokens : plainAssembler.tokens "0,x,2,*,x,+,=x,rnd,+,x,2,^,+,2,-" =
      ["0", "x", "2", "*", "x", "+", "=x", "rnd", "+", "x", "2", "^", "+", "2", "-"] := by cbv
  have hreads : plainAssembler.Reads
      ["0", "x", "2", "*", "x", "+", "=x", "rnd", "+", "x", "2", "^", "+", "2", "-"] _ :=
    .cons rfl <| .cons rfl <| .cons rfl <| .cons rfl <| .cons rfl <| .cons rfl <| .cons rfl <|
      .cons rfl <| .cons rfl <| .cons rfl <| .cons rfl <| .cons rfl <| .cons rfl <| .cons rfl <|
        .cons rfl .nil
  obtain ⟨_, -, hok⟩ := Assembler.assemble_accepts (by cbv) (htokens ▸ hreads) rfl
  obtain ⟨q, hq, hsame⟩ := linear_folding_preserves_evaluation rationalArithmetic_exact
    plainAssembler _ _ hok { constantFolding := true, linearFolding := true }
  exact ⟨_, q, hok, hq, hsame⟩

end StackCode
