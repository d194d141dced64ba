import Mathlib.Tactic.Ring
import StackCode.Proofs.AffineFolding
import StackCode.Proofs.Exact

/-!
# The normal form of affine formulas

Over exact arithmetic, the value that an affine formula is folded into is the normal form of the
function the formula denotes. Its numbers are the slope and the intercept of the function, and it
names the variable exactly if the slope is not zero. A function has one normal form, so formulas that
denote the same function are assembled into the same code.
-/

namespace StackCode

universe u

/-- The number that a formula denotes at a number. -/
def Formula.value {α : Type u} [Arithmetic α] (x : α) : Formula α → α
  | .literal c => c
  | .slot => x
  | .combined o left right => o.apply (left.value x) (right.value x)

variable {R : Type u} [CommRing R]

/-- The normal form of a function of the given variable: its slope and its intercept, with the variable
exactly if the slope is not zero. -/
structure Value.IsNormalForm (name : String) (slot : Slot) (g : R → R) (v : Value R) : Prop where
  eq_affine (x : R) : g x = v.coef * x + v.offset
  named (h : v.coef ≠ 0) : v.name = name ∧ v.source = some slot
  unnamed (h : v.coef = 0) : v.name = "" ∧ v.source = none

namespace Value.IsNormalForm

variable {name : String} {slot : Slot} {g k : R → R} {a b v w : Value R}

/-- The intercept is the value of the function at zero. -/
theorem offset_eq (h : v.IsNormalForm name slot g) : v.offset = g 0 := by
  rw [h.eq_affine, mul_zero, zero_add]

/-- The slope is what the function gains from zero to one. -/
theorem coef_eq (h : v.IsNormalForm name slot g) : v.coef = g 1 - g 0 := by
  rw [← h.offset_eq, h.eq_affine, mul_one, add_sub_cancel_right]

/-- A function without slope is its intercept. -/
theorem eq_offset (h : v.IsNormalForm name slot g) (hcoef : v.coef = 0) (x : R) :
    g x = v.offset := by
  rw [h.eq_affine, hcoef, zero_mul, zero_add]

/-- A function has one normal form. -/
theorem unique (hv : v.IsNormalForm name slot g) (hw : w.IsNormalForm name slot g) : v = w := by
  have hcoef : v.coef = w.coef := by rw [hv.coef_eq, hw.coef_eq]
  have hoffset : v.offset = w.offset := by rw [hv.offset_eq, hw.offset_eq]
  have hlabels : v.name = w.name ∧ v.source = w.source := by
    by_cases hzero : v.coef = 0
    · obtain ⟨hname, hsource⟩ := hv.unnamed hzero
      obtain ⟨hname', hsource'⟩ := hw.unnamed (hcoef ▸ hzero)
      exact ⟨hname.trans hname'.symm, hsource.trans hsource'.symm⟩
    · obtain ⟨hname, hsource⟩ := hv.named hzero
      obtain ⟨hname', hsource'⟩ := hw.named (hcoef ▸ hzero)
      exact ⟨hname.trans hname'.symm, hsource.trans hsource'.symm⟩
  cases v
  cases w
  simp_all

/-- Functions are equal exactly if their normal forms are. -/
theorem eq_iff (hv : v.IsNormalForm name slot g) (hw : w.IsNormalForm name slot k) :
    (∀ x, g x = k x) ↔ v = w := by
  constructor
  · intro h
    obtain rfl : g = k := funext h
    exact hv.unique hw
  · intro h x
    rw [hv.eq_affine, hw.eq_affine, h]

variable [Arithmetic R] (hexact : Arithmetic.Exact R)

include hexact

/-- The normal form of a constant. -/
theorem literal (c : R) : (literal c).IsNormalForm name slot fun _ => c := by
  have hzero : (Value.literal c).coef = 0 := hexact.zero_eq
  refine ⟨fun x => ?_, fun hcoef => absurd hzero hcoef, fun _ => ⟨rfl, rfl⟩⟩
  rw [hzero, zero_mul, zero_add]
  rfl

/-- Dropping a variable part that has vanished leaves a normal form. -/
theorem normalized {label : String} {source : Option Slot} {coef offset : R}
    (hlabels : coef ≠ 0 → label = name ∧ source = some slot) :
    (Value.normalized ⟨label, source, coef, offset⟩).IsNormalForm name slot
      fun x => coef * x + offset := by
  unfold Value.normalized
  split
  · rename_i hconstant
    have hzero : coef = 0 := hexact.isConstant_iff.mp hconstant
    simp only [hzero, zero_mul, zero_add]
    exact literal hexact offset
  · rename_i hvariable
    exact ⟨fun _ => rfl, hlabels, fun hzero => absurd (hexact.isConstant_iff.mpr hzero) hvariable⟩

/-- The normal form of a sum. -/
theorem plus (ha : a.IsNormalForm name slot g) (hb : b.IsNormalForm name slot k) :
    (a.plus b).IsNormalForm name slot fun x => g x + k x := by
  have hsum (x : R) : g x + k x = (a.coef + b.coef) * x + (a.offset + b.offset) := by
    rw [ha.eq_affine, hb.eq_affine]
    ring
  simp only [hsum]
  unfold Value.plus
  rw [hexact.add_eq, hexact.add_eq]
  split
  · rename_i hconstant
    apply normalized hexact
    intro hcoef
    apply ha.named
    intro hzero
    rw [hzero, hexact.isConstant_iff.mp hconstant, add_zero] at hcoef
    exact hcoef rfl
  · rename_i hvariable
    apply normalized hexact
    intro _
    apply hb.named
    intro hzero
    exact hvariable (hexact.isConstant_iff.mpr hzero)

/-- The normal form of the opposite. -/
theorem negated (h : v.IsNormalForm name slot g) :
    v.negated.IsNormalForm name slot fun x => -g x := by
  rw [hexact.negated_eq]
  refine ⟨fun x => ?_, fun hcoef => h.named (neg_ne_zero.mp hcoef),
    fun hcoef => h.unnamed (neg_eq_zero.mp hcoef)⟩
  rw [h.eq_affine]
  ring

/-- The normal form of a multiple. -/
theorem timesRight (h : a.IsNormalForm name slot g) (c : R) :
    (a.timesRight c).IsNormalForm name slot fun x => g x * c := by
  have hmultiple (x : R) : g x * c = a.coef * c * x + a.offset * c := by
    rw [h.eq_affine]
    ring
  simp only [hmultiple]
  unfold Value.timesRight
  rw [hexact.mul_eq, hexact.mul_eq]
  apply normalized hexact
  intro hcoef
  exact h.named (left_ne_zero_of_mul hcoef)

/-- The normal form of what an operator computes, if a product has a constant factor. -/
theorem combine {o : RingOperator} (ha : a.IsNormalForm name slot g)
    (hb : b.IsNormalForm name slot k)
    (hproduct : o = .product → a.isConstant = true ∨ b.isConstant = true) :
    (o.combine a b).IsNormalForm name slot fun x => o.apply (g x) (k x) := by
  have hconstant {v : Value R} {f : R → R} (h : v.IsNormalForm name slot f)
      (hv : v.isConstant = true) (x : R) : f x = v.offset :=
    h.eq_offset (hexact.isConstant_iff.mp hv) x
  unfold RingOperator.combine
  split
  · rename_i hliterals
    obtain ⟨hleft, hright⟩ := Bool.and_eq_true_iff.mp hliterals
    simp only [hconstant ha hleft, hconstant hb hright]
    exact literal hexact _
  · cases o with
    | sum =>
      simp only [RingOperator.apply, hexact.add_eq]
      exact plus hexact ha hb
    | difference =>
      simp only [RingOperator.apply, hexact.sub_eq, sub_eq_add_neg]
      exact plus hexact ha (negated hexact hb)
    | product =>
      simp only [RingOperator.apply, hexact.mul_eq]
      split
      · rename_i hleft
        simp only [hconstant ha hleft, mul_comm a.offset]
        exact timesRight hexact hb a.offset
      · rename_i hleft
        simp only [hconstant hb ((hproduct rfl).resolve_left hleft)]
        exact timesRight hexact ha b.offset

end Value.IsNormalForm

variable [Arithmetic R]

/-- Exact arithmetic has the laws of zero. -/
theorem Arithmetic.Exact.zeroLaws (hexact : Exact R) : ZeroLaws R where
  zero := hexact.isZero_iff.mpr hexact.zero_eq
  add hx hy := by
    rw [hexact.isZero_iff] at hx hy ⊢
    rw [hexact.add_eq, hx, hy, add_zero]

/-- An affine formula is folded into the normal form of the function it denotes. -/
theorem Formula.folded_isNormalForm [Nontrivial R] (hexact : Arithmetic.Exact R) {f : Formula R}
    (haffine : f.IsAffine) (name : String) (slot : Slot) :
    (f.folded name slot).IsNormalForm name slot f.value := by
  induction f with
  | literal c => exact .literal hexact c
  | slot =>
    have hone : (Value.ofSlot name (some slot) : Value R).coef = 1 := hexact.one_eq
    have hzero : (Value.ofSlot name (some slot) : Value R).offset = 0 := hexact.zero_eq
    refine ⟨fun x => ?_, fun _ => ⟨rfl, rfl⟩, fun hcoef => absurd (hone.symm.trans hcoef) one_ne_zero⟩
    rw [folded, hone, hzero, one_mul, add_zero]
    rfl
  | combined o left right ihleft ihright =>
    obtain ⟨hleft, hright, hproduct⟩ := haffine
    exact .combine hexact (ihleft hleft) (ihright hright) fun ho =>
      (hproduct ho).imp (isConstant_folded hexact.zeroLaws) (isConstant_folded hexact.zeroLaws)

/-- Folding normalizes affine expressions. An accepted expression of literals, one variable, sums,
differences and products is that of exactly one formula. If that formula is affine and all folding
rules are on, then over machine numbers the program is one value and the end, and its selector is zero.
Over exact arithmetic that value is moreover the normal form of the function that the formula denotes,
so two such expressions have the same code exactly if they denote the same function. -/
theorem affine_expressions_normalize :
    (∀ {α : Type u} [Arithmetic α] (a : Assembler α) (name : String) (slot : Slot) (source : String)
      (tokens : List (Token α)) (p : Program α),
      (a.assemble source).result = .ok p → a.Reads (a.tokens source) tokens →
      (∀ t ∈ tokens, t.InFormula name slot) → ∃! f : Formula α, f.tokens name slot = tokens) ∧
    (∀ (a : Assembler Float) (name : String) (slot : Slot) (source : String) (f : Formula Float)
      (p : Program Float), a.AssemblesAffine name slot source f p →
      (∃ v, p.code = [⟨.value v, 1⟩, ⟨.stop, 1⟩]) ∧ p.engineId = 0) ∧
    (∀ {R : Type u} [CommRing R] [Nontrivial R] [Arithmetic R], Arithmetic.Exact R →
      ∀ (a : Assembler R) (name : String) (slot : Slot) (source : String) (f : Formula R)
        (p : Program R), a.AssemblesAffine name slot source f p →
      (∃ v, p.code = [⟨.value v, 1⟩, ⟨.stop, 1⟩] ∧ v.IsNormalForm name slot f.value) ∧
        p.engineId = 0 ∧
        ∀ (b : Assembler R) (other : String) (g : Formula R) (q : Program R),
          b.AssemblesAffine name slot other g q →
          ((∀ x, f.value x = g.value x) ↔ p.code = q.code)) := by
  refine ⟨?_, ?_, ?_⟩
  · intro α _ a name slot source tokens p hok hreads hformula
    exact Assembler.existsUnique_formula hok hreads hformula
  · intro a name slot source f p h
    obtain ⟨hcode, hengine⟩ := h.code_eq Binary64.zeroLaws
    exact ⟨⟨_, hcode⟩, hengine⟩
  · intro R _ _ _ hexact a name slot source f p hp
    obtain ⟨hcode, hengine⟩ := hp.code_eq hexact.zeroLaws
    have hnormal := f.folded_isNormalForm hexact hp.affine name slot
    refine ⟨⟨_, hcode, hnormal⟩, hengine, ?_⟩
    intro b other g q hq
    have hother := g.folded_isNormalForm hexact hq.affine name slot
    rw [hnormal.eq_iff hother, hcode, (hq.code_eq hexact.zeroLaws).1]
    simp

/-- An assembler of one variable that reads a few numbers, with all folding rules on. -/
def affineAssembler (α : Type u) [Arithmetic α] : Assembler α where
  slots := [("x", "x")]
  config := { constantFolding := true, linearFolding := true }
  number := fun text =>
    ([("2", 2), ("3", 3), ("4", 4), ("5", 5), ("18", 18)].lookup text).map Arithmetic.ofNat
  draws := fun _ => Arithmetic.zero

/-- The formula `2 - x * 3 + (x - 4) * 5`. -/
def nestedFormula (α : Type u) [Arithmetic α] : Formula α :=
  .combined .sum
    (.combined .difference (.literal (Arithmetic.ofNat 2))
      (.combined .product .slot (.literal (Arithmetic.ofNat 3))))
    (.combined .product (.combined .difference .slot (.literal (Arithmetic.ofNat 4)))
      (.literal (Arithmetic.ofNat 5)))

/-- The formula `x * 2 - 18`. -/
def flatFormula (α : Type u) [Arithmetic α] : Formula α :=
  .combined .difference (.combined .product .slot (.literal (Arithmetic.ofNat 2)))
    (.literal (Arithmetic.ofNat 18))

/-- The tokens of an affine formula that are read from a text are assembled. -/
theorem affineAssembler_assembles {α : Type u} [Arithmetic α] {source : String} {texts : List String}
    {f : Formula α} (hblank : (trimChars source.toList).isEmpty = false)
    (htexts : (affineAssembler α).tokens source = texts)
    (hreads : (affineAssembler α).Reads texts (f.tokens "x" "x"))
    (hdepth : recognize? 0 (f.tokens "x" "x") = some 1) (haffine : f.IsAffine) :
    ∃ p, (affineAssembler α).AssemblesAffine "x" "x" source f p := by
  rw [← htexts] at hreads
  obtain ⟨_, -, hok⟩ := Assembler.assemble_accepts hblank hreads hdepth
  exact ⟨_, ⟨rfl, rfl, rfl⟩, hok, hreads, haffine⟩

/-- The tokens of the nested formula are assembled. -/
theorem affineAssembler_nested (α : Type u) [Arithmetic α] :
    ∃ p, (affineAssembler α).AssemblesAffine "x" "x" "2,x,3,*,-,x,4,-,5,*,+" (nestedFormula α) p := by
  have htexts : (affineAssembler α).tokens "2,x,3,*,-,x,4,-,5,*,+" =
      ["2", "x", "3", "*", "-", "x", "4", "-", "5", "*", "+"] := by cbv
  refine affineAssembler_assembles (by cbv) htexts ?_ rfl ?_
  · exact .cons rfl <| .cons rfl <| .cons rfl <| .cons rfl <| .cons rfl <| .cons rfl <| .cons rfl <|
      .cons rfl <| .cons rfl <| .cons rfl <| .cons rfl .nil
  · simp [nestedFormula, Formula.IsAffine, Formula.Mentions]

/-- The tokens of the flat formula are assembled. -/
theorem affineAssembler_flat (α : Type u) [Arithmetic α] :
    ∃ p, (affineAssembler α).AssemblesAffine "x" "x" "x,2,*,18,-" (flatFormula α) p := by
  have htexts : (affineAssembler α).tokens "x,2,*,18,-" = ["x", "2", "*", "18", "-"] := by cbv
  refine affineAssembler_assembles (by cbv) htexts ?_ rfl ?_
  · exact .cons rfl <| .cons rfl <| .cons rfl <| .cons rfl <| .cons rfl .nil
  · simp [flatFormula, Formula.IsAffine, Formula.Mentions]

/-- A sum of a difference and a product is one value, also over machine numbers; over rational numbers
it is the value of the formula in which its terms are collected. -/
theorem affine_expressions_normalize_nested :
    (∃ p : Program Float, ((affineAssembler Float).assemble "2,x,3,*,-,x,4,-,5,*,+").result = .ok p ∧
      (∃ v, p.code = [⟨.value v, 1⟩, ⟨.stop, 1⟩]) ∧ p.engineId = 0) ∧
    ∃ p q : Program ℚ,
      ((affineAssembler ℚ).assemble "2,x,3,*,-,x,4,-,5,*,+").result = .ok p ∧
      ((affineAssembler ℚ).assemble "x,2,*,18,-").result = .ok q ∧
      (∃! f : Formula ℚ, f.tokens "x" "x" = (nestedFormula ℚ).tokens "x" "x") ∧
      p.code = [⟨.value ⟨"x", some "x", 2, -18⟩, 1⟩, ⟨.stop, 1⟩] ∧ p.engineId = 0 ∧
      p.code = q.code := by
  obtain ⟨hunique, hmachine, hrational⟩ := affine_expressions_normalize
  obtain ⟨m, hm⟩ := affineAssembler_nested Float
  obtain ⟨p, hp⟩ := affineAssembler_nested ℚ
  obtain ⟨q, hq⟩ := affineAssembler_flat ℚ
  obtain ⟨⟨v, hcode, hnormal⟩, hengine, hsame⟩ :=
    hrational rationalArithmetic_exact _ _ _ _ _ _ hp
  have hf (x : ℚ) : (nestedFormula ℚ).value x = 2 * x - 18 := by
    change 2 - x * 3 + (x - 4) * 5 = 2 * x - 18
    ring
  have hg (x : ℚ) : (flatFormula ℚ).value x = 2 * x - 18 := by
    change x * 2 - 18 = 2 * x - 18
    ring
  have hv : v = ⟨"x", some "x", 2, -18⟩ := by
    apply hnormal.unique
    refine ⟨fun x => ?_, fun _ => ⟨rfl, rfl⟩, fun hcoef => absurd hcoef two_ne_zero⟩
    rw [hf]
    exact sub_eq_add_neg _ _
  refine ⟨⟨m, hm.accepted, hmachine _ _ _ _ _ _ hm⟩, p, q, hp.accepted, hq.accepted, ?_,
    hv ▸ hcode, hengine, ?_⟩
  · exact hunique _ _ _ _ _ _ hp.accepted hp.reads (Formula.inFormula_tokens _)
  · exact (hsame _ _ _ _ hq).mp fun x => (hf x).trans (hg x).symm

end StackCode
