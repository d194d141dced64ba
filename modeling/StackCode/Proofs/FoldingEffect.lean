import Mathlib.Tactic.FinCases
import StackCode.Proofs.Effect
import StackCode.Proofs.Exact
import StackCode.Proofs.Fusion

/-!
# Folding keeps the effect

A call that folding absorbs has the effect of the operations it replaces. A call on literals is
computed in a larger buffer than at run time, which makes no difference to a rule on all its
operands. The linear rules rest on the laws of linear folding. They are asked for only where that
rule is on, so without it folding is exact whatever the arithmetic.

Folding reads names and operand counts where evaluation reads routines. The two agree for sound
operations, and folding keeps operations sound.
-/

namespace StackCode

universe u

variable {α : Type u}

/-- The operand counts that a rule is made for. -/
def Rule.Takes : Rule α → Int → Prop
  | .unary _, n => n = 1
  | .binary _, n => n = 2
  | .ternary _, n => n = 3
  | .variadic _, n => 0 ≤ n
  | .draw, n => n = 0
  | .whole _, _ => False

/-- A rule on all its operands leaves the result in the first slot, whatever slots follow. -/
theorem Rule.Takes.run_eq {rule : Rule α} {xs : List α} (h : rule.Takes xs.length)
    (hpos : 0 < xs.length) :
    rule.isDraw = false ∧ ∃ y, ∀ draw spare, ∃ slots,
      rule.run draw xs.length (xs ++ spare) = ⟨y :: slots, none⟩ := by
  cases rule with
  | unary f =>
    obtain ⟨x, rfl⟩ := List.length_eq_one_iff.mp (Int.ofNat_inj.mp h)
    exact ⟨rfl, f x, fun draw spare => ⟨spare, rfl⟩⟩
  | binary f =>
    obtain ⟨x, y, rfl⟩ := List.length_eq_two.mp (Int.ofNat_inj.mp h)
    exact ⟨rfl, f x y, fun draw spare => ⟨y :: spare, rfl⟩⟩
  | ternary f =>
    obtain ⟨x, y, z, rfl⟩ := List.length_eq_three.mp (Int.ofNat_inj.mp h)
    exact ⟨rfl, f x y z, fun draw spare => ⟨y :: z :: spare, rfl⟩⟩
  | variadic f =>
    obtain ⟨x, rest, rfl⟩ := List.exists_cons_of_length_pos hpos
    refine ⟨rfl, rest.foldl f x, fun draw spare => ⟨rest ++ spare, ?_⟩⟩
    have hcount : (((x :: rest).length : Int) - 1).toNat = rest.length := by simp
    have henough : ((x :: rest).length : Int) - 1 ≤ ((rest ++ spare).length : Int) := by
      simp
    rw [List.cons_append, run, hcount, List.take_left, if_pos henough]
  | draw =>
    change (xs.length : Int) = 0 at h
    omega
  | whole f => exact h.elim

section

variable [Arithmetic α]

namespace Routine

variable {r : Routine α} {xs : List α}

/-- A routine on all its operands computes the same in the larger buffer of folding. -/
theorem apply_eq_onLiterals (h : r.rule.Takes xs.length) (hpos : 0 < xs.length) (draw draw' : α) :
    r.rule.isDraw = false ∧ r.apply draw xs = .ok (r.onLiterals draw' xs) := by
  obtain ⟨hdraw, y, hrun⟩ := h.run_eq hpos
  obtain ⟨slots, happly⟩ := hrun draw [Arithmetic.zero]
  obtain ⟨slots', hfold⟩ :=
    hrun draw' (List.replicate (foldSlots - xs.length) Arithmetic.zero)
  refine ⟨hdraw, ?_⟩
  rw [apply, onLiterals, call, call, happly, hfold]
  rfl

/-- A routine on all its operands has a result. -/
theorem apply_ok (h : r.rule.Takes xs.length) (draw : α) : ∃ x, r.apply draw xs = .ok x := by
  by_cases hpos : 0 < xs.length
  · exact ⟨_, (apply_eq_onLiterals h hpos draw draw).2⟩
  · have hnil : xs = [] := List.eq_nil_of_length_eq_zero (Nat.eq_zero_of_not_pos hpos)
    subst hnil
    cases hrule : r.rule with
    | draw => exact ⟨draw, by rw [apply, call, hrule]; rfl⟩
    | variadic f => exact ⟨Arithmetic.zero, by rw [apply, call, hrule]; rfl⟩
    | unary f => simp [hrule, Rule.Takes] at h
    | binary f => simp [hrule, Rule.Takes] at h
    | ternary f => simp [hrule, Rule.Takes] at h
    | whole f => simp [hrule, Rule.Takes] at h

end Routine

/-- The routine that a symbol stands for in a call of two operands, the power included. -/
def symbolRoutine? : String → Option Builtin
  | "^" => some .pow
  | name => operatorRoutine? name

/-- A call of a routine on all its operands, with a name that says what it computes. -/
structure Call.Sound (c : Call α) : Prop where
  takes : ∃ r, c.routine = some r ∧ r.rule.Takes c.arity
  operator : c.binary = true → c.arity = 2
  symbol : c.arity = 2 → ∀ b, symbolRoutine? c.name = some b → c.routine = some (.builtin b)

/-- An operator computes what its symbol says. -/
theorem Call.Sound.rule?_eq {c : Call α} (h : c.Sound) (b : Builtin) (hbinary : c.binary = true)
    {symbol : String} (hname : c.name = symbol) (hsymbol : symbolRoutine? symbol = some b) :
    c.rule? = some b.rule := by
  rw [rule?, h.symbol (h.operator hbinary) b (hname ▸ hsymbol)]
  rfl

/-- An operation that can be carried out once its operands are there. -/
def Operation.Sound : Operation α → Prop
  | .value v => ∀ store, ∃ x, v.eval store = .ok x
  | .call c => c.Sound
  | .assign a => a.target.isSome = true
  | .stop => True

/-- A literal stands for its number. -/
theorem Value.literal_eval (hzero : Arithmetic.isZero (Arithmetic.zero : α) = true) (x : α)
    (store : Slot → α) : (Value.literal x).eval store = .ok x := by
  rw [eval, if_pos (show (Value.literal x).isConstant = true from hzero)]
  rfl

/-- Folding keeps operations sound. -/
theorem foldClosed_sound {config : Config} (laws : FoldLaws α config) :
    FoldClosed config (Operation.Sound : Operation α → Prop) where
  literal x store := ⟨x, Value.literal_eval laws.zero x store⟩
  retagged h := ⟨h.takes, fun hbinary => absurd hbinary (by simp), h.symbol⟩
  plus hlinear hvariable ha hb store := by
    obtain ⟨x, hx⟩ := ha store
    obtain ⟨y, hy⟩ := hb store
    exact ⟨_, (laws.linear hlinear).plus hvariable hx hy⟩
  scaled hlinear _ ha k store := by
    obtain ⟨x, hx⟩ := ha store
    exact ⟨_, (laws.linear hlinear).scaled k hx⟩
  negated hlinear hv store := by
    obtain ⟨x, hx⟩ := hv store
    exact ⟨_, (laws.linear hlinear).negated hx⟩
  power {n b} _ hroutine := by
    have hrule : ∃ f : α → α, b.rule = .unary f := by
      unfold Builtin.ofExponent? at hroutine
      split at hroutine <;> cases hroutine <;> exact ⟨_, rfl⟩
    obtain ⟨f, hf⟩ := hrule
    refine ⟨⟨.builtin b, rfl, ?_⟩, fun hbinary => absurd hbinary (by simp),
      fun harity => absurd harity (by simp)⟩
    rw [Routine.rule, hf]
    rfl
  again _ _ harity h := ⟨h.takes, fun _ => harity, h.symbol⟩
  sum {c} _ hbinary _ h := by
    have htwo : c.arity = 2 := Call.Sound.operator h hbinary
    refine ⟨⟨.builtin .add, rfl, htwo⟩, fun _ => htwo, fun _ b hb => ?_⟩
    cases hb
    rfl

/-- Literal operands are pushed one after another. -/
theorem run_literalOperands {n : Nat} {latest : List (Instruction α)} {xs : List α}
    (h : literalOperands? n latest = some xs) (m : Machine α) (rest : List (Operation α)) :
    xs.length = n ∧ m.run (operationsOf (latest.take n) ++ rest) =
      { m with stack := xs.reverse ++ m.stack }.run rest := by
  induction n generalizing latest xs rest with
  | zero =>
    cases h
    exact ⟨rfl, rfl⟩
  | succ n ih =>
    obtain ⟨v, pos, below, ys, rfl, hconstant, hys, rfl⟩ := literalOperands?_succ h
    obtain ⟨hlength, hrun⟩ := ih hys (.value v :: rest)
    have heval (store : Slot → α) : v.eval store = .ok v.offset := by
      rw [Value.eval, if_pos hconstant]
    refine ⟨by rw [List.length_append, hlength]; rfl, ?_⟩
    rw [List.take_succ_cons, operationsOf_cons, List.append_assoc, List.singleton_append, hrun,
      Machine.run_value _ (heval _), Machine.push, List.reverse_append]
    rfl

/-- A call on literals has the effect of its result. -/
theorem sameEffect_literals (hzero : Arithmetic.isZero (Arithmetic.zero : α) = true)
    {c : Call α} {r : Routine α} {latest : List (Instruction α)} {xs : List α} (hc : c.Sound)
    (hroutine : c.routine = some r) (hpos : 0 < c.arity.toNat)
    (hoperands : literalOperands? c.arity.toNat latest = some xs) (draw : α) :
    SameEffect [.value (.literal (r.onLiterals draw xs))]
      (operationsOf (latest.take c.arity.toNat) ++ [.call c]) := by
  intro m rest
  obtain ⟨hlength, hrun⟩ := run_literalOperands hoperands m (.call c :: rest)
  have harity : c.arity = xs.length := by omega
  obtain ⟨s, hs, htakes⟩ := hc.takes
  rw [hroutine] at hs
  cases hs
  rw [harity] at htakes
  obtain ⟨hdraw, happly⟩ :=
    Routine.apply_eq_onLiterals htakes (hlength ▸ hpos) (m.draws 0) draw
  rw [List.append_assoc, List.singleton_append, List.singleton_append, hrun,
    Machine.run_value m (Value.literal_eval hzero _ _)]
  let pushed : Machine α := { m with stack := xs.reverse ++ m.stack }
  exact (Machine.run_call pushed xs hroutine harity hdraw happly rfl rest).symm

/-- An operator on two values has the effect of a value that stands for the result. -/
theorem sameEffect_values {v a b : Value α} {c : Call α} {f : α → α → α}
    (hrule : c.rule? = some (.binary f)) (harity : c.arity = 2)
    (ha : ∀ store, ∃ x, a.eval store = .ok x) (hb : ∀ store, ∃ y, b.eval store = .ok y)
    (hv : ∀ store x y, a.eval store = .ok x → b.eval store = .ok y → v.eval store = .ok (f x y)) :
    SameEffect [.value v] [.value a, .value b, .call c] := by
  intro m rest
  obtain ⟨x, hx⟩ := ha m.store
  obtain ⟨y, hy⟩ := hb m.store
  change m.run (.value v :: rest) = m.run (.value a :: .value b :: .call c :: rest)
  rw [Machine.run_value m (hv m.store x y hx hy), Machine.run_value m hx,
    Machine.run_value (m.push x) hy, Machine.run_binary hrule harity]
  rfl

/-- An operator with a literal on its right has the effect of a call of one operand. -/
theorem sameEffect_section {v : Value α} {c d : Call α} {f : α → α → α} {g : α → α} {e : α}
    (hrule : c.rule? = some (.binary f)) (harity : c.arity = 2)
    (hv : ∀ store, v.eval store = .ok e) (hd : d.rule? = some (.unary g)) (hone : d.arity = 1)
    (hg : ∀ x, g x = f x e) : SameEffect [.call d] [.value v, .call c] := by
  intro m rest
  change m.run (.call d :: rest) = m.run (.value v :: .call c :: rest)
  rw [Machine.run_unary hd hone, Machine.run_value m (hv _), Machine.run_binary hrule harity]
  obtain ⟨stack, store, draws⟩ := m
  cases stack with
  | nil => rfl
  | cons x below =>
    change Machine.run ⟨g x :: below, store, draws⟩ rest =
      Machine.run ⟨f x e :: below, store, draws⟩ rest
    rw [hg]

/-- Whether a call is still an operator makes no difference to its effect. -/
theorem sameEffect_retagged (c : Call α) (binary : Bool) :
    SameEffect [.call { c with binary }] [.call c] := fun _ _ => rfl

/-- Subtracting a value has the effect of adding its opposite. -/
theorem sameEffect_negated (laws : LinearLaws α) {v : Value α} {c : Call α}
    (hv : ∀ store, ∃ x, v.eval store = .ok x) (hrule : c.rule? = some (.binary Arithmetic.sub))
    (harity : c.arity = 2) :
    SameEffect [.value v.negated, .call c.asSum] [.value v, .call c] := by
  intro m rest
  obtain ⟨x, hx⟩ := hv m.store
  have hsum : c.asSum.rule? = some (.binary Arithmetic.add) := rfl
  change m.run (.value v.negated :: .call c.asSum :: rest) = m.run (.value v :: .call c :: rest)
  rw [Machine.run_value m (laws.negated hx), Machine.run_value m hx,
    Machine.run_binary hsum harity, Machine.run_binary hrule harity]
  obtain ⟨stack, store, draws⟩ := m
  cases stack with
  | nil => rfl
  | cons y below =>
    change Machine.run ⟨Arithmetic.add y (Arithmetic.neg x) :: below, store, draws⟩ rest =
      Machine.run ⟨Arithmetic.sub y x :: below, store, draws⟩ rest
    rw [laws.difference]

/-- Subtracting a value from a sum has the effect of adding its opposite to the last summand. -/
theorem sameEffect_through (laws : LinearLaws α) {v : Value α} {front c : Call α}
    (hv : ∀ store, ∃ x, v.eval store = .ok x)
    (hfront : front.rule? = some (.binary Arithmetic.add)) (htwo : front.arity = 2)
    (hrule : c.rule? = some (.binary Arithmetic.sub)) (harity : c.arity = 2) :
    SameEffect [.value v.negated, .call front, .call c.asSum]
      [.call front, .value v, .call c] := by
  intro m rest
  obtain ⟨z, hz⟩ := hv m.store
  have hsum : c.asSum.rule? = some (.binary Arithmetic.add) := rfl
  change m.run (.value v.negated :: .call front :: .call c.asSum :: rest) =
    m.run (.call front :: .value v :: .call c :: rest)
  rw [Machine.run_value m (laws.negated hz), Machine.run_binary hfront htwo,
    Machine.run_binary hfront htwo]
  obtain ⟨stack, store, draws⟩ := m
  match stack with
  | [] => rfl
  | [y] =>
    exact Machine.run_binary hsum harity ⟨[Arithmetic.add y (Arithmetic.neg z)], store, draws⟩ rest
  | y :: x :: below =>
    let added : Machine α := ⟨Arithmetic.add x y :: below, store, draws⟩
    change Machine.run ⟨Arithmetic.add y (Arithmetic.neg z) :: x :: below, store, draws⟩
      (.call c.asSum :: rest) = added.run (.value v :: .call c :: rest)
    rw [Machine.run_binary hsum harity, Machine.run_value added hz,
      Machine.run_binary hrule harity]
    change Machine.run ⟨Arithmetic.add x (Arithmetic.add y (Arithmetic.neg z)) :: below, store, draws⟩
      rest = Machine.run ⟨Arithmetic.sub (Arithmetic.add x y) z :: below, store, draws⟩ rest
    rw [laws.difference, laws.regrouped]

/-- The most recent instructions may be exchanged for others that have the effect of them and of
what comes after. -/
theorem sameEffect_latest (old new rest : List (Instruction α)) {after : List (Operation α)}
    (h : SameEffect (operationsOf new) (operationsOf old ++ after)) :
    SameEffect (operationsOf (new ++ rest)) (operationsOf (old ++ rest) ++ after) := by
  rw [operationsOf_append, operationsOf_append, List.append_assoc]
  exact h.append_left _

variable {p q : Program α} {c : Call α}

/-- An absorbed call has the effect of what it replaces. -/
theorem Absorbed.sameEffect (h : Absorbed p c q) (laws : FoldLaws α p.config)
    (hp : p.Holds Operation.Sound) (hc : c.Sound) :
    SameEffect q.operations (p.operations ++ [.call c]) := by
  unfold Program.operations
  cases h with
  | @literals r xs first rest _ hroutine hpos _ hoperands hfirst =>
    have hdrop : p.latest.drop c.arity.toNat = rest := by
      have hnext := List.drop_drop (l := p.latest) (i := 1) (j := c.arity.toNat - 1)
      rw [hfirst, Nat.sub_add_cancel hpos] at hnext
      exact hnext.symm
    rw [← List.take_append_drop c.arity.toNat p.latest, hdrop]
    refine sameEffect_latest _ [⟨.value _, first.stackPos⟩] rest ?_
    exact sameEffect_literals laws.zero hc hroutine hpos hoperands (p.draws 0)
  | @sum a b top pos rest hlinear hbinary hname hlatest hvariable =>
    have hrule : c.rule? = some (.binary Arithmetic.add) := hc.rule?_eq .add hbinary hname rfl
    rw [Program.Holds, hlatest, List.forall_mem_cons, List.forall_mem_cons] at hp
    rw [hlatest]
    refine sameEffect_latest [⟨.value b, top⟩, ⟨.value a, pos⟩] [⟨.value _, pos⟩] rest ?_
    apply sameEffect_values hrule (hc.operator hbinary) hp.2.1 hp.1
    exact fun store x y hx hy => (laws.linear hlinear).plus hvariable hx hy
  | @product a b v top pos rest hlinear hbinary hname hlatest hvalue =>
    have hrule : c.rule? = some (.binary Arithmetic.mul) := hc.rule?_eq .mul hbinary hname rfl
    rw [Program.Holds, hlatest, List.forall_mem_cons, List.forall_mem_cons] at hp
    rw [hlatest]
    refine sameEffect_latest [⟨.value b, top⟩, ⟨.value a, pos⟩] [⟨.value _, pos⟩] rest ?_
    apply sameEffect_values hrule (hc.operator hbinary) hp.2.1 hp.1
    intro store x y hx hy
    obtain ⟨-, hb, rfl⟩ | ⟨ha, -, rfl⟩ := hvalue
    · rw [Value.eval, if_pos hb] at hy
      cases hy
      exact (laws.linear hlinear).scaled b.offset hx
    · rw [Value.eval, if_pos ha] at hx
      cases hx
      rw [(laws.linear hlinear).swapped]
      exact (laws.linear hlinear).scaled a.offset hy
  | @power e pos below rest n b hlinear hbinary hname hlatest hconstant hexponent hroutine =>
    have hrule : c.rule? = some (.binary Arithmetic.pow) := hc.rule?_eq .pow hbinary hname rfl
    obtain ⟨g, hg, hpow⟩ := (laws.linear hlinear).power hexponent hroutine
    rw [hlatest]
    refine sameEffect_latest [⟨.value e, pos⟩] [⟨.call _, below.stackPos⟩] (below :: rest) ?_
    refine sameEffect_section hrule (hc.operator hbinary) ?_ (congrArg some hg) rfl hpow
    intro store
    rw [Value.eval, if_pos hconstant]

/-- A pushed call has the effect of the call. -/
theorem Pushed.sameEffect (h : Pushed p c q) (laws : FoldLaws α p.config)
    (hp : p.Holds Operation.Sound) (hc : c.Sound) :
    SameEffect q.operations (p.operations ++ [.call c]) := by
  cases h with
  | absorbed h => exact h.sameEffect laws hp hc
  | stored =>
    simp only [Program.operations, Program.stored, operationsOf_cons]
    exact (sameEffect_retagged c false).append_left _

/-- However a call is pushed, it has the effect of the call. -/
theorem CallPushed.sameEffect (h : CallPushed p c q) (laws : FoldLaws α p.config)
    (hp : p.Holds Operation.Sound) (hc : c.Sound) :
    SameEffect q.operations (p.operations ++ [.call c]) := by
  have hclosed : FoldClosed p.config (Operation.Sound : Operation α → Prop) :=
    foldClosed_sound laws
  cases h with
  | direct h => exact h.sameEffect laws hp hc
  | @negated v pos rest _ hlinear hbinary hname hlatest h =>
    have hrule : c.rule? = some (.binary Arithmetic.sub) :=
      hc.rule?_eq .sub hbinary hname rfl
    have hsum : c.asSum.Sound := hclosed.sum hlinear hbinary hname hc
    rw [Program.Holds, hlatest, List.forall_mem_cons] at hp
    obtain ⟨hv, hrest⟩ := hp
    have hunder : Program.Holds Operation.Sound
        { p with latest := ⟨.value v.negated, pos⟩ :: rest } :=
      List.forall_mem_cons.mpr ⟨hclosed.negated hlinear hv, hrest⟩
    apply (h.sameEffect laws hunder hsum).trans
    simp only [Program.operations, hlatest, operationsOf_cons, List.append_assoc,
      List.cons_append, List.nil_append]
    exact (sameEffect_negated (laws.linear hlinear) hv hrule (hc.operator hbinary)).append_left _
  | @through v pos above front below mid _ hlinear hbinary hname hlatest hfront harity hagain h =>
    have hrule : c.rule? = some (.binary Arithmetic.sub) :=
      hc.rule?_eq .sub hbinary hname rfl
    have hsum : c.asSum.Sound := hclosed.sum hlinear hbinary hname hc
    rw [Program.Holds, hlatest, List.forall_mem_cons, List.forall_mem_cons] at hp
    obtain ⟨hv, hsound, hbelow⟩ := hp
    have hretagged : Call.Sound { front with binary := true } :=
      hclosed.again hlinear hfront harity hsound
    have hadd : front.rule? = some (.binary Arithmetic.add) :=
      hretagged.rule?_eq .add rfl hfront rfl
    have hunder : ((p.rewound below).stored (.value v.negated) (topPos below + 1)).Holds
        Operation.Sound :=
      Program.Holds.stored (p := p.rewound below) hbelow (hclosed.negated hlinear hv) _
    have hmid : mid.Holds Operation.Sound := hagain.holds hclosed hunder hretagged
    -- The two pushes in turn, then the law that carries the value through the sum.
    apply (h.sameEffect (by rw [hagain.config_eq]; exact laws) hmid hsum).trans
    apply ((hagain.sameEffect laws hunder hretagged).append_right _).trans
    simp only [Program.operations, Program.stored, Program.rewound, hlatest, operationsOf_cons,
      List.append_assoc, List.cons_append, List.nil_append]
    refine SameEffect.append_left ?_ _
    refine SameEffect.trans ?_
      (sameEffect_through (laws.linear hlinear) hv hadd harity hrule (hc.operator hbinary))
    exact ((sameEffect_retagged front true).append_right [.call c.asSum]).append_left
      [.value v.negated]

/-- The named routines take the operands that a producer gives them. -/
theorem catalog_takes : ∀ entry ∈ catalog,
    (∀ fixed : Nat, entry.arity = some fixed → (entry.routine.rule : Rule α).Takes fixed) ∧
      (entry.arity = none → ∀ n : Nat, (entry.routine.rule : Rule α).Takes n) := by
  intro entry hentry
  fin_cases hentry <;>
    simp [Builtin.rule, Rule.Takes]

/-- Named symbols stand for their routines. -/
theorem catalog_symbol : ∀ entry ∈ catalog, symbolRoutine? entry.name = none ∨
    symbolRoutine? entry.name = some entry.routine := by decide

/-- A call token is pushed as a sound call. -/
theorem CatalogEntry.call_sound {entry : CatalogEntry} {arity : Nat}
    (hvalid : (Token.call entry arity : Token α).Valid) : (entry.call arity : Call α).Sound where
  takes := by
    refine ⟨.builtin entry.routine, rfl, ?_⟩
    obtain ⟨hfixed, hvariadic⟩ := catalog_takes (α := α) entry hvalid.1
    cases harity : entry.arity with
    | none => exact hvariadic harity arity
    | some fixed =>
      have heq : arity = fixed := hvalid.2 fixed harity
      rw [heq]
      exact hfixed fixed harity
  operator hbinary := by
    have htwo : arity = 2 := hvalid.arity_of_binary hbinary
    rw [htwo]
    rfl
  symbol _ b hb := by
    change symbolRoutine? entry.name = some b at hb
    rcases catalog_symbol entry hvalid.1 with hnone | hsome
    · rw [hnone] at hb
      contradiction
    · rw [hsome] at hb
      cases hb
      rfl

/-- The operation of a token can be carried out once its operands are there. -/
theorem Token.Valid.sound (hzero : Arithmetic.isZero (Arithmetic.zero : α) = true) {t : Token α}
    (hvalid : t.Valid) : t.operation.Sound := by
  cases t with
  | literal x => exact fun store => ⟨x, Value.literal_eval hzero x store⟩
  | slot name source =>
    intro store
    unfold Value.eval
    split
    · exact ⟨_, rfl⟩
    · exact ⟨_, rfl⟩
  | call entry arity =>
    have hsound : (entry.call arity : Call α).Sound := CatalogEntry.call_sound hvalid
    exact ⟨hsound.takes, fun hbinary => absurd hbinary (by simp), hsound.symbol⟩
  | assign name target => rfl

namespace TokenPushed

variable {t : Token α}

/-- A pushed token keeps operations sound. -/
theorem sound (h : TokenPushed p t q) (laws : FoldLaws α p.config) (hvalid : t.Valid)
    (hp : p.Holds Operation.Sound) : q.Holds Operation.Sound := by
  refine h.holds (foldClosed_sound laws) hp ?_
  cases t with
  | literal x => exact hvalid.sound laws.zero
  | slot name source => exact hvalid.sound laws.zero
  | call entry arity => exact CatalogEntry.call_sound hvalid
  | assign name target => exact hvalid.sound laws.zero

/-- A pushed token has the effect of its operation. -/
theorem sameEffect (h : TokenPushed p t q) (laws : FoldLaws α p.config) (hvalid : t.Valid)
    (hp : p.Holds Operation.Sound) : SameEffect q.operations (p.operations ++ [t.operation]) := by
  cases h with
  | literal x =>
    rw [Program.operations, Program.stored, operationsOf_cons]
    exact .refl _
  | slot name source =>
    rw [Program.operations, Program.stored, operationsOf_cons]
    exact .refl _
  | @call entry arity _ _ h =>
    have hpushed := h.sameEffect laws hp (CatalogEntry.call_sound hvalid)
    exact hpushed.trans ((sameEffect_retagged (entry.call arity) false).symm.append_left _)
  | assign name target _ =>
    rw [Program.operations, operationsOf_cons]
    exact .refl _

end TokenPushed

/-- Pushed tokens have the effect of their operations. -/
theorem TokensPushed.sameEffect {tokens : List (Token α)} (h : TokensPushed p tokens q)
    (laws : FoldLaws α p.config) (hp : p.Holds Operation.Sound) :
    SameEffect q.operations (p.operations ++ tokens.map Token.operation) := by
  induction h with
  | nil =>
    rw [List.map_nil, List.append_nil]
    exact .refl _
  | @cons p mid q t rest hvalid h hrest ih =>
    have hmid : mid.Holds Operation.Sound := h.sound laws hvalid hp
    apply (ih (by rw [h.config_eq]; exact laws) hmid).trans
    have hstep := (h.sameEffect laws hvalid hp).append_right (rest.map Token.operation)
    rw [List.append_assoc] at hstep
    exact hstep

end

end StackCode
