import StackCode.Proofs.Meaning

/-!
# Folding without algebra

Constant folding computes what the routine computes, and fusion of two operators only regroups
their calls. Neither rests on a law of the arithmetic. The one rule of fusion that does is the rule
for powers, and a power is only put into a program by linear folding: no token names one.

So without linear folding, programs agree over any arithmetic, terms of uninterpreted symbols
included. That zero tests equal to itself is all that is asked: it tells a literal from a variable.
-/

namespace StackCode

universe u

variable {α : Type u}

/-- A call of no power that fusion knows. -/
def Call.Powerless (c : Call α) : Prop :=
  ∀ b ∈ [Builtin.pow2, .pow3, .pow4], c.routine ≠ some (.builtin b)

/-- No call is of a power that fusion knows. -/
def Operation.Powerless (o : Operation α) : Prop := ∀ c, o = .call c → c.Powerless

/-- A fused call is of no power. -/
theorem FusedCall.powerless_call (n t c : Call α) (h : FusedCall n t c) :
    (Operation.call c).Powerless := by
  rintro d ⟨⟩ b hb hroutine
  cases h with
  | pair hrule _ _ _ _ =>
    cases hroutine
    exact pairRules_routine _ hrule hb
  | power hrule _ _ _ =>
    cases hroutine
    exact (powerRules_routine _ hrule).1 hb

variable [Arithmetic α]

/-- Without linear folding, no power is put into a program. -/
theorem foldClosed_powerless {config : Config} (hlinear : ¬config.FoldsLinear) :
    FoldClosed config (Operation.Powerless : Operation α → Prop) :=
  foldClosed_calls (fun _ h _ => h) (fun hfolds => absurd hfolds hlinear)
    fun hfolds => absurd hfolds hlinear

/-- No token is a call of a power. -/
theorem Token.Valid.powerless {t : Token α} (h : t.Valid) : t.pushed.Powerless := by
  refine h.pushed_calls fun entry hentry arity b hb hroutine => ?_
  cases hroutine
  exact catalog_power entry hentry hb

/-- A call that is fused with one before it that is no power has the effect of the two. -/
theorem FusedCall.sameEffect_of_powerless {next tail c : Call α} (h : FusedCall next tail c)
    (hnext : next.Conventional) (htail : tail.Conventional) (hpowerless : tail.Powerless) :
    SameEffect [.call c] [.call tail, .call next] := by
  cases h with
  | pair hrule hnextArity htailArity houter hinner =>
    exact sameEffect_of_pair hrule hnextArity htailArity houter hinner hnext htail
  | power hrule _ _ hpower => exact absurd hpower (hpowerless _ (powerRules_power _ hrule))

/-- The fusion pass keeps the effect of conventional calls of no powers, over any arithmetic. -/
theorem Program.substitute_sameEffect_of_powerless {p : Program α}
    (h : p.Holds fun o => o.Conventional ∧ o.Powerless) :
    SameEffect p.substitute.program.operations p.operations := by
  rw [operations, operations, p.substitute_latest]
  split
  · refine fusedLatest_sameEffect (P := fun o => o.Conventional ∧ o.Powerless)
      (fun n t c hcall => ⟨hcall.conventional_call, hcall.powerless_call⟩) ?_ h
    exact fun n t c hcall hn ht =>
      hcall.sameEffect_of_powerless (hn.1 n rfl) (ht.1 t rfl) (ht.2 t rfl)
  · exact .refl _

/-- Without linear folding, folding relies on no law but that zero tests equal to itself. -/
theorem FoldLaws.of_not_foldsLinear (hzero : Arithmetic.isZero (Arithmetic.zero : α) = true)
    {config : Config} (hlinear : ¬config.FoldsLinear) : FoldLaws α config :=
  ⟨hzero, fun hfolds => absurd hfolds hlinear⟩

/-- Without linear folding, an accepted expression is assembled to a program with the effect of its
tokens and an end, over any arithmetic. -/
theorem Assembler.assemble_sameEffect_of_not_foldsLinear
    (hzero : Arithmetic.isZero (Arithmetic.zero : α) = true) {a : Assembler α} {source : String}
    {tokens : List (Token α)} (hlinear : ¬a.config.FoldsLinear)
    (hblank : (trimChars source.toList).isEmpty = false)
    (hreads : a.Reads (a.tokens source) tokens) (hdepth : recognize? 0 tokens = some 1) :
    ∃ p, (a.assemble source).result = .ok p ∧
      SameEffect p.operations (tokens.map Token.operation ++ [.stop]) := by
  have laws : FoldLaws α a.config := .of_not_foldsLinear hzero hlinear
  refine assemble_sameEffect_of_fused laws (fun q hpushed => ?_) hblank hreads hdepth
  refine Program.substitute_sameEffect_of_powerless (hpushed.holds ?_ ?_ ?_)
  · exact (foldClosed_conventional _).and (foldClosed_powerless hlinear)
  · exact fun i hi => absurd hi List.not_mem_nil
  · exact fun t hvalid => ⟨hvalid.conventional, hvalid.powerless⟩

/-- Constant folding and fusion are exact over any arithmetic. If an expression is accepted, then it
is accepted with the optimizer off and with linear folding off, whatever the other settings are, and
from the same slots and draws both programs end with the same single value, the same slots and the
same draws. No law of the arithmetic is used but that zero tests equal to itself, by which a literal
is told from a variable. -/
theorem constant_folding_and_fusion_exact
    (hzero : Arithmetic.isZero (Arithmetic.zero : α) = true) (a : Assembler α) (source : String)
    (accepted : Program α) (hok : (a.assemble source).result = .ok accepted) (plain config : Config)
    (hplain : plain.optimizer = false) (hlinear : config.linearFolding = false) :
    ∃ p q, ({ a with config := plain }.assemble source).result = .ok p ∧
      ({ a with config }.assemble source).result = .ok q ∧
      ∀ (store : Slot → α) (draws : Nat → α), ∃ x final, final.stack = [x] ∧
        p.evaluate ⟨[], store, draws⟩ = .ok final ∧
        q.evaluate ⟨[], store, draws⟩ = .ok final := by
  obtain ⟨hblank, tokens, -, hreads, hdepth, -, -, -⟩ := Assembler.assemble_pushed hok
  obtain ⟨p, hp, hunfolded⟩ := Assembler.assemble_sameEffect_of_not_foldsLinear hzero
    (a := { a with config := plain }) (by simp [Config.FoldsLinear, hplain]) hblank hreads hdepth
  obtain ⟨q, hq, hfolded⟩ := Assembler.assemble_sameEffect_of_not_foldsLinear hzero
    (a := { a with config }) (by simp [Config.FoldsLinear, hlinear]) hblank hreads hdepth
  refine ⟨p, q, hp, hq, fun store draws => ?_⟩
  obtain ⟨final, hrun, hheight⟩ :=
    run_tokens hzero hreads.valid (m := ⟨[], store, draws⟩) hdepth
  obtain ⟨x, hx⟩ := List.length_eq_one_iff.mp (Int.ofNat_inj.mp hheight)
  exact ⟨x, final, hx, (hunfolded.run_eq _).trans hrun, (hfolded.run_eq _).trans hrun⟩

/-- Terms of uninterpreted symbols. -/
inductive SymbolicTerm where
  | number (n : Nat)
  | unary (symbol : String) (x : SymbolicTerm)
  | binary (symbol : String) (x y : SymbolicTerm)
  deriving DecidableEq

/-- Every operation on terms makes a larger term. -/
instance symbolicArithmetic : Arithmetic SymbolicTerm where
  ofNat := .number
  same x y := decide (x = y)
  add := .binary "+"
  sub := .binary "-"
  mul := .binary "*"
  div := .binary "/"
  pow := .binary "^"
  neg := .unary "neg"
  sin := .unary "sin"
  cos := .unary "cos"
  tan := .unary "tan"
  sqrt := .unary "sqrt"
  exp := .unary "exp"
  log := .unary "log"
  abs := .unary "abs"
  least := .binary "min"
  greatest := .binary "max"

/-- An assembler for terms with one variable and all rules on. -/
def symbolicAssembler : Assembler SymbolicTerm where
  slots := [("x", "x")]
  config := { constantFolding := true, linearFolding := true }
  number := fun text =>
    if text = "0" then some (.number 0) else if text = "2" then some (.number 2) else none
  draws := fun _ => .number 0

/-- Over terms, an expression that assigns and draws computes the same term with its literals folded
and its operators fused as without. -/
theorem constant_folding_and_fusion_exact_symbolic :
    ∃ p q, ({ symbolicAssembler with config := { optimizer := false } }.assemble
        "0,x,2,2,sin,max:2,+,=x,rnd,x,*,+,2,2,/,-").result = .ok p ∧
      ({ symbolicAssembler with config := { constantFolding := true } }.assemble
        "0,x,2,2,sin,max:2,+,=x,rnd,x,*,+,2,2,/,-").result = .ok q ∧
      ∀ (store : Slot → SymbolicTerm) (draws : Nat → SymbolicTerm), ∃ x final, final.stack = [x] ∧
        p.evaluate ⟨[], store, draws⟩ = .ok final ∧
        q.evaluate ⟨[], store, draws⟩ = .ok final := by
  have htokens : symbolicAssembler.tokens "0,x,2,2,sin,max:2,+,=x,rnd,x,*,+,2,2,/,-" =
      ["0", "x", "2", "2", "sin", "max:2", "+", "=x", "rnd", "x", "*", "+", "2", "2", "/", "-"] :=
    by cbv
  have hreads : symbolicAssembler.Reads
      ["0", "x", "2", "2", "sin", "max:2", "+", "=x", "rnd", "x", "*", "+", "2", "2", "/", "-"] _ :=
    .cons rfl <| .cons rfl <| .cons rfl <| .cons rfl <| .cons rfl <| .cons rfl <| .cons rfl <|
      .cons rfl <| .cons rfl <| .cons rfl <| .cons rfl <| .cons rfl <| .cons rfl <| .cons rfl <|
        .cons rfl <| .cons rfl .nil
  obtain ⟨_, -, hok⟩ := Assembler.assemble_accepts (by cbv) (htokens ▸ hreads) rfl
  exact constant_folding_and_fusion_exact rfl symbolicAssembler _ _ hok { optimizer := false }
    { constantFolding := true } rfl rfl

end StackCode
