import Mathlib.Algebra.Order.Ring.Rat
import Mathlib.Data.Rat.Cast.Order
import Mathlib.Tactic.FinCases
import Mathlib.Tactic.Ring
import StackCode.Proofs.Push

/-!
# Exact arithmetic

Linear folding rearranges sums and products. It relies on a few laws: what it makes of values
stands for their sum, their multiple or their opposite, a difference is a sum with the opposite,
addition is associative, multiplication is commutative, and a small power is a repeated product.

Over a commutative ring these laws hold as soon as the ring operations are exact. Division and the
other functions may be anything, and nothing is asked of powers beyond the exponents from 2 to 5.
-/

namespace StackCode

universe u

/-- What linear folding relies on. -/
structure LinearLaws (α : Type u) [Arithmetic α] : Prop where
  plus {a b : Value α} {store : Slot → α} {x y : α}
    (hvariable : a.isConstant = true ∨ b.isConstant = true ∨ a.source = b.source)
    (ha : a.eval store = .ok x) (hb : b.eval store = .ok y) :
    (a.plus b).eval store = .ok (Arithmetic.add x y)
  scaled {a : Value α} {store : Slot → α} {x : α} (k : α) (ha : a.eval store = .ok x) :
    (a.timesRight k).eval store = .ok (Arithmetic.mul x k)
  negated {v : Value α} {store : Slot → α} {x : α} (hv : v.eval store = .ok x) :
    v.negated.eval store = .ok (Arithmetic.neg x)
  difference (x y : α) : Arithmetic.sub x y = Arithmetic.add x (Arithmetic.neg y)
  regrouped (x y z : α) :
    Arithmetic.add (Arithmetic.add x y) z = Arithmetic.add x (Arithmetic.add y z)
  swapped (x y : α) : Arithmetic.mul x y = Arithmetic.mul y x
  power {e : α} {n : Nat} {b : Builtin} (hexponent : Arithmetic.smallExponent? e = some n)
    (hroutine : Builtin.ofExponent? n = some b) :
    ∃ f : α → α, b.rule = .unary f ∧ ∀ x, f x = Arithmetic.pow x e

/-- What folding relies on with the given settings: zero tests equal to itself, and the linear laws
hold if linear folding is on. -/
structure FoldLaws (α : Type u) [Arithmetic α] (config : Config) : Prop where
  zero : Arithmetic.isZero (Arithmetic.zero : α) = true
  linear (hlinear : config.FoldsLinear) : LinearLaws α

/-- The operations of a commutative ring are exact, and so are powers with a small exponent. -/
structure Arithmetic.Exact (R : Type u) [CommRing R] [Arithmetic R] : Prop where
  ofNat_eq (n : Nat) : Arithmetic.ofNat n = (n : R)
  same_iff (x y : R) : Arithmetic.same x y = true ↔ x = y
  add_eq (x y : R) : Arithmetic.add x y = x + y
  sub_eq (x y : R) : Arithmetic.sub x y = x - y
  mul_eq (x y : R) : Arithmetic.mul x y = x * y
  neg_eq (x : R) : Arithmetic.neg x = -x
  pow_eq (x : R) (n : Nat) (hn : n ∈ [2, 3, 4, 5]) : Arithmetic.pow x (n : R) = x ^ n

namespace Arithmetic.Exact

variable {R : Type u} [CommRing R] [Arithmetic R] (h : Exact R)

include h

/-- The number zero is the zero of the ring. -/
theorem zero_eq : (zero : R) = 0 := by rw [zero, h.ofNat_eq, Nat.cast_zero]

/-- The number one is the one of the ring. -/
theorem one_eq : (one : R) = 1 := by rw [one, h.ofNat_eq, Nat.cast_one]

/-- Testing equal to zero is being zero. -/
theorem isZero_iff {x : R} : isZero x = true ↔ x = 0 := by
  rw [isZero, h.same_iff, h.zero_eq]

/-- A value is constant if its coefficient is zero. -/
theorem isConstant_iff {v : Value R} : v.isConstant = true ↔ v.coef = 0 := h.isZero_iff

/-- A value without coefficient stands for its offset. -/
theorem eval_constant (name : String) (source : Option Slot) {coef : R} (hcoef : coef = 0)
    (offset : R) (store : Slot → R) :
    Value.eval store ⟨name, source, coef, offset⟩ = .ok offset := by
  rw [Value.eval, if_pos (h.isConstant_iff.mpr hcoef)]

/-- A value of a variable stands for its linear term, also if the coefficient is zero. -/
theorem eval_variable (name : String) {source : Option Slot} {slot : Slot}
    (hsource : source = some slot) (coef offset : R) (store : Slot → R) :
    Value.eval store ⟨name, source, coef, offset⟩ = .ok (store slot * coef + offset) := by
  by_cases hcoef : coef = 0
  · rw [h.eval_constant name source hcoef, hcoef, mul_zero, zero_add]
  · have hvariable : ¬(⟨name, source, coef, offset⟩ : Value R).isConstant = true :=
      fun hv => hcoef (h.isConstant_iff.mp hv)
    rw [Value.eval, if_neg hvariable, hsource, ← h.mul_eq, ← h.add_eq]

/-- What a value can stand for. -/
theorem eval_cases {v : Value R} {store : Slot → R} {x : R} (hv : v.eval store = .ok x) :
    (v.coef = 0 ∧ x = v.offset) ∨
      (v.coef ≠ 0 ∧ ∃ slot, v.source = some slot ∧ x = store slot * v.coef + v.offset) := by
  obtain ⟨name, source, coef, offset⟩ := v
  by_cases hcoef : coef = 0
  · rw [h.eval_constant name source hcoef] at hv
    exact Or.inl ⟨hcoef, (Except.ok.inj hv).symm⟩
  · cases source with
    | none =>
      have hvariable : ¬(⟨name, none, coef, offset⟩ : Value R).isConstant = true :=
        fun hv => hcoef (h.isConstant_iff.mp hv)
      rw [Value.eval, if_neg hvariable] at hv
      contradiction
    | some slot =>
      rw [h.eval_variable name rfl] at hv
      exact Or.inr ⟨hcoef, slot, rfl, (Except.ok.inj hv).symm⟩

/-- Dropping a variable part that has vanished keeps what a value stands for. -/
theorem normalized_eval (v : Value R) (store : Slot → R) :
    v.normalized.eval store = v.eval store := by
  unfold Value.normalized
  split
  · rename_i hconstant
    rw [Value.reset, Value.literal, h.eval_constant "" none h.zero_eq]
    exact (h.eval_constant v.name v.source (h.isConstant_iff.mp hconstant) v.offset store).symm
  · rfl

/-- A sum of values stands for the sum. -/
theorem plus_eval {a b : Value R} {store : Slot → R} {x y : R}
    (hvariable : a.isConstant = true ∨ b.isConstant = true ∨ a.source = b.source)
    (ha : a.eval store = .ok x) (hb : b.eval store = .ok y) :
    (a.plus b).eval store = .ok (x + y) := by
  simp only [h.isConstant_iff] at hvariable
  unfold Value.plus
  rw [h.normalized_eval, h.add_eq, h.add_eq]
  obtain ⟨hzero, rfl⟩ | ⟨hnonzero, slot, hsource, rfl⟩ := h.eval_cases hb
  · rw [if_pos (h.isConstant_iff.mpr hzero), hzero, add_zero]
    obtain ⟨hcoef, rfl⟩ | ⟨-, other, hother, rfl⟩ := h.eval_cases ha
    · exact h.eval_constant a.name a.source hcoef _ store
    · rw [h.eval_variable a.name hother, add_assoc]
  · have hb : ¬b.isConstant = true := fun hb => hnonzero (h.isConstant_iff.mp hb)
    rw [if_neg hb, h.eval_variable b.name hsource]
    apply congrArg Except.ok
    obtain ⟨hcoef, rfl⟩ | ⟨hcoef, other, hother, rfl⟩ := h.eval_cases ha
    · rw [hcoef]
      ring
    · have hsame : a.source = b.source :=
        (hvariable.resolve_left hcoef).resolve_left hnonzero
      rw [hsame, hsource, Option.some.injEq] at hother
      rw [hother]
      ring

/-- A scaled value stands for the multiple. -/
theorem timesRight_eval {a : Value R} {store : Slot → R} {x : R} (k : R)
    (ha : a.eval store = .ok x) : (a.timesRight k).eval store = .ok (x * k) := by
  unfold Value.timesRight
  rw [h.normalized_eval, h.mul_eq, h.mul_eq]
  obtain ⟨hcoef, rfl⟩ | ⟨-, slot, hsource, rfl⟩ := h.eval_cases ha
  · have hzero : a.coef * k = 0 := by rw [hcoef, zero_mul]
    exact h.eval_constant a.name a.source hzero _ store
  · rw [h.eval_variable a.name hsource]
    apply congrArg Except.ok
    ring

/-- Negating a value is negating both of its numbers, also those that test equal to zero. -/
theorem negated_eq (v : Value R) : v.negated = { v with coef := -v.coef, offset := -v.offset } := by
  have hopposite (z : R) : (if isZero z = true then z else neg z) = -z := by
    by_cases hz : z = 0
    · rw [if_pos (h.isZero_iff.mpr hz), hz, neg_zero]
    · rw [if_neg fun hzero => hz (h.isZero_iff.mp hzero), h.neg_eq]
  rw [Value.negated, hopposite, hopposite]

/-- A negated value stands for the opposite. -/
theorem negated_eval {v : Value R} {store : Slot → R} {x : R} (hv : v.eval store = .ok x) :
    v.negated.eval store = .ok (-x) := by
  rw [h.negated_eq]
  obtain ⟨hcoef, rfl⟩ | ⟨-, slot, hsource, rfl⟩ := h.eval_cases hv
  · have hzero : -v.coef = 0 := by rw [hcoef, neg_zero]
    exact h.eval_constant v.name v.source hzero _ store
  · rw [h.eval_variable v.name hsource]
    apply congrArg Except.ok
    ring

/-- Copies of a number multiply to a power. -/
theorem repeated_eq (x : R) (n : Nat) : Builtin.repeated x n = x ^ (n + 1) := by
  induction n with
  | zero => rw [Builtin.repeated, zero_add, pow_one]
  | succ n ih => rw [Builtin.repeated, h.mul_eq, ih, ← pow_succ]

/-- The routine for a small exponent computes the power. -/
theorem power_rule {e : R} {n : Nat} {b : Builtin} (hexponent : smallExponent? e = some n)
    (hroutine : Builtin.ofExponent? n = some b) :
    ∃ f : R → R, b.rule = .unary f ∧ ∀ x, f x = pow x e := by
  have hmem := List.mem_of_find?_eq_some hexponent
  have hsame := List.find?_some hexponent
  rw [h.same_iff, h.ofNat_eq] at hsame
  subst hsame
  have hpow (x : R) : pow x (n : R) = x ^ n := h.pow_eq x n hmem
  have hproduct (x : R) (k : Nat) : mul x (Builtin.repeated x k) = x ^ (k + 2) := by
    rw [h.mul_eq, h.repeated_eq]
    ring
  fin_cases hmem <;> cases hroutine
  · exact ⟨_, rfl, fun x => (hproduct x 0).trans (hpow x).symm⟩
  · exact ⟨_, rfl, fun x => (hproduct x 1).trans (hpow x).symm⟩
  · exact ⟨_, rfl, fun x => (hproduct x 2).trans (hpow x).symm⟩
  · exact ⟨_, rfl, fun x => (hproduct x 3).trans (hpow x).symm⟩

/-- Exact arithmetic satisfies the laws of linear folding. -/
theorem linearLaws : LinearLaws R where
  plus hvariable ha hb := by rw [h.add_eq, h.plus_eval hvariable ha hb]
  scaled k ha := by rw [h.mul_eq, h.timesRight_eval k ha]
  negated hv := by rw [h.neg_eq, h.negated_eval hv]
  difference x y := by rw [h.sub_eq, h.add_eq, h.neg_eq, sub_eq_add_neg]
  regrouped x y z := by simp only [h.add_eq, add_assoc]
  swapped x y := by rw [h.mul_eq, h.mul_eq, mul_comm]
  power hexponent hroutine := h.power_rule hexponent hroutine

/-- Exact arithmetic satisfies what folding relies on, with any settings. -/
theorem foldLaws (config : Config) : FoldLaws R config where
  zero := h.isZero_iff.mpr h.zero_eq
  linear _ := h.linearLaws

end Arithmetic.Exact

/-- Rational arithmetic; a function without rational values returns its operand. -/
instance rationalArithmetic : Arithmetic ℚ where
  ofNat n := n
  same x y := x == y
  add x y := x + y
  sub x y := x - y
  mul x y := x * y
  div x y := x / y
  pow x y := x ^ y.num
  neg x := -x
  sin x := x
  cos x := x
  tan x := x
  sqrt x := x
  exp x := x
  log x := x
  abs x := |x|
  least x y := min x y
  greatest x y := max x y

/-- Rational arithmetic is exact. -/
theorem rationalArithmetic_exact : Arithmetic.Exact ℚ where
  ofNat_eq _ := rfl
  same_iff _ _ := beq_iff_eq
  add_eq _ _ := rfl
  sub_eq _ _ := rfl
  mul_eq _ _ := rfl
  neg_eq _ := rfl
  pow_eq x n _ := by
    change x ^ (n : ℚ).num = x ^ n
    rw [Rat.num_natCast, zpow_natCast]

end StackCode
