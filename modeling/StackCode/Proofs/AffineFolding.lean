import StackCode.Arithmetic.Binary64
import StackCode.Proofs.Formula
import StackCode.Proofs.Sealing

/-!
# Folding affine formulas

With all folding rules on, the tokens of an affine formula leave one value, whatever the numbers are:
two values in front of an operator are merged if the rule for that operator finds at most one
variable in them, and for a product a literal beside it. Both follow from what a folded formula looks
like. It is a literal if the formula does not mention the variable, and otherwise it is a literal or
has the variable as its source.

Little is asked of the numbers for this: zero and a sum of zeros test equal to zero. Machine numbers
have two zeros, and both laws.
-/

namespace StackCode

universe u

/-- What merging values relies on: zero and a sum of zeros test equal to zero. -/
structure ZeroLaws (α : Type u) [Arithmetic α] : Prop where
  zero : Arithmetic.isZero (Arithmetic.zero : α) = true
  add {x y : α} (hx : Arithmetic.isZero x = true) (hy : Arithmetic.isZero y = true) :
    Arithmetic.isZero (Arithmetic.add x y) = true

namespace Binary64

open Float.Model

/-- The number zero is the positive zero. -/
theorem unpack_zero : (Arithmetic.zero : Float).toModel.unpack = .zero .positive := rfl

/-- The two zeros are what tests equal to zero. -/
theorem isZero_iff {x : Float} :
    Arithmetic.isZero x = true ↔ ∃ sign, x.toModel.unpack = .zero sign := by
  change (x.toModel.unpack.compare (Arithmetic.zero : Float).toModel.unpack == some .eq) = true ↔ _
  rw [unpack_zero]
  -- All other numbers compare as smaller, larger or not at all.
  cases x.toModel.unpack with
  | notANumber => exact iff_of_false Bool.false_ne_true nofun
  | infinity sign => cases sign <;> exact iff_of_false Bool.false_ne_true nofun
  | zero sign => exact iff_of_true rfl ⟨sign, rfl⟩
  | finite sign m e hm => cases sign <;> exact iff_of_false Bool.false_ne_true nofun

/-- A zero is stored as a zero. -/
theorem unpack_pack_zero (sign : UnpackedFloat.Sign) : (pack (.zero sign)).unpack = .zero sign := by
  cases sign <;> rfl

/-- A sum of zeros is a zero. -/
theorem exists_add_zero (s t : UnpackedFloat.Sign) :
    ∃ sign, UnpackedFloat.add .binary64 (.zero s) (.zero t) = .zero sign := by
  cases s <;> cases t <;> exact ⟨_, rfl⟩

/-- Machine numbers have the laws of zero. -/
theorem zeroLaws : ZeroLaws Float where
  zero := isZero_iff.mpr ⟨_, unpack_zero⟩
  add {x y} hx hy := by
    obtain ⟨s, hs⟩ := isZero_iff.mp hx
    obtain ⟨t, ht⟩ := isZero_iff.mp hy
    have hsum : (Arithmetic.add x y).toModel =
        pack (UnpackedFloat.add .binary64 x.toModel.unpack y.toModel.unpack) := rfl
    obtain ⟨sign, hsign⟩ := exists_add_zero s t
    apply isZero_iff.mpr
    rw [hsum, hs, ht, hsign]
    exact ⟨sign, unpack_pack_zero sign⟩

end Binary64

variable {α : Type u}

namespace Program

/-- A program with one more value on top. -/
structure Gains (p : Program α) (v : Value α) (q : Program α) : Prop where
  config : q.config = p.config
  latest : q.latest = ⟨.value v, p.stackPos + 1⟩ :: p.latest
  stackPos : q.stackPos = p.stackPos + 1

namespace Gains

variable {p q : Program α} {v : Value α}

/-- One more value keeps the program steady. -/
theorem isSteady (h : p.Gains v q) (hsteady : p.IsSteady) : q.IsSteady := by
  have hnonneg := hsteady.stackPos_nonneg
  have hstored : (p.stored (.value v) (p.stackPos + 1)).IsSteady :=
    hsteady.stored (by omega) (Int.le_refl _)
  constructor
  · rw [h.latest]
    exact hstored.stamps
  · rw [h.stackPos, h.latest]
    rfl

/-- A pushed value is one more value. -/
theorem pushValue (hsteady : p.IsSteady) (v : Value α) : p.Gains v (p.pushValue v) := by
  rw [Program.pushValue_eq hsteady]
  exact ⟨rfl, rfl, rfl⟩

end Gains

/-- A program of one value is sealed as that value and the end, with the selector zero. -/
theorem finalize_value {p : Program α} {v : Value α} (hlatest : p.latest = [⟨.value v, 1⟩])
    (hdepth : p.stackPos = 1) :
    p.finalize.program.code = [⟨.value v, 1⟩, ⟨.stop, 1⟩] ∧ p.finalize.program.engineId = 0 := by
  have hfused : FullyFused p.latest := by
    rw [hlatest]
    exact .singleton _
  have hclosed : p.closed = { p with latest := [⟨.stop, 1⟩, ⟨.value v, 1⟩] } := by
    have hopen : p.isFinalized = false := by
      rw [isFinalized, hlatest]
      rfl
    rw [closed, hopen, hlatest, hdepth]
    rfl
  have hsealed : p.finalize.program = p.closed.classified := by
    rw [finalize, substitute_eq_self fun _ => hfused]
  rw [hsealed, hclosed]
  exact ⟨rfl, rfl⟩

end Program

variable [Arithmetic α]

namespace Value

/-- A value of at most the given variable. -/
def IsOf (slot : Slot) (v : Value α) : Prop := v.isConstant = true ∨ v.source = some slot

variable {slot : Slot} {a b v : Value α}

/-- Literals are constant. -/
theorem isConstant_literal (laws : ZeroLaws α) (x : α) : (literal x).isConstant = true := laws.zero

/-- A negated constant is constant. -/
theorem isConstant_negated (h : v.isConstant = true) : v.negated.isConstant = true := by
  have hcoef : v.negated.coef = v.coef := if_pos h
  rw [isConstant, hcoef]
  exact h

namespace IsOf

/-- Dropping a variable part that has vanished adds no variable. -/
theorem normalized (laws : ZeroLaws α) (h : v.IsOf slot) : v.normalized.IsOf slot := by
  unfold Value.normalized
  split
  · exact Or.inl (isConstant_literal laws v.offset)
  · exact h

/-- Negating adds no variable. -/
theorem negated (h : v.IsOf slot) : v.negated.IsOf slot := h.imp isConstant_negated id

/-- A sum has no variable beyond those of its parts. -/
theorem plus (laws : ZeroLaws α) (ha : a.IsOf slot) (hb : b.IsOf slot) :
    (a.plus b).IsOf slot := by
  unfold Value.plus
  apply normalized laws
  -- The sum takes the source of `b`, or that of `a` if `b` is constant. In that case `a` may be a
  -- literal without source, so the sum of two zeros has to be a zero.
  split
  · rename_i hconstant
    exact ha.imp (fun hzero => laws.add hzero hconstant) id
  · rename_i hvariable
    exact Or.inr (hb.resolve_left hvariable)

/-- A multiple has no other variable. -/
theorem timesRight (laws : ZeroLaws α) (hsource : a.source = some slot) (k : α) :
    (a.timesRight k).IsOf slot := normalized laws (Or.inr hsource)

/-- Values of at most one variable are the values that an addition takes in. -/
theorem mergeable (ha : a.IsOf slot) (hb : b.IsOf slot) :
    a.isConstant = true ∨ b.isConstant = true ∨ a.source = b.source := by
  rcases ha with hconstant | hsource
  · exact Or.inl hconstant
  · exact Or.inr (hb.imp id fun hother => hsource.trans hother.symm)

end IsOf

end Value

namespace RingOperator

/-- What an operator computes. -/
def apply (o : RingOperator) (x y : α) : α :=
  match o with
  | .sum => Arithmetic.add x y
  | .difference => Arithmetic.sub x y
  | .product => Arithmetic.mul x y

/-- The value that two values in front of an operator are merged into. -/
def combine (o : RingOperator) (a b : Value α) : Value α :=
  if a.isConstant && b.isConstant then .literal (o.apply a.offset b.offset)
  else match o with
    | .sum => a.plus b
    | .difference => a.plus b.negated
    | .product => if a.isConstant then b.timesRight a.offset else a.timesRight b.offset

variable {o : RingOperator} {a b : Value α} {slot : Slot}

/-- Constants are merged into a literal. -/
theorem combine_constant (ha : a.isConstant = true) (hb : b.isConstant = true) :
    o.combine a b = .literal (o.apply a.offset b.offset) := by
  unfold combine
  rw [ha, hb]
  rfl

/-- Merging adds no variable. -/
theorem combine_isOf (laws : ZeroLaws α) (ha : a.IsOf slot) (hb : b.IsOf slot) :
    (o.combine a b).IsOf slot := by
  unfold combine
  split
  · exact Or.inl (Value.isConstant_literal laws _)
  · rename_i hvariable
    cases o with
    | sum => exact ha.plus laws hb
    | difference => exact ha.plus laws hb.negated
    | product =>
      dsimp only
      split
      · rename_i hconstant
        rw [hconstant, Bool.true_and] at hvariable
        exact .timesRight laws (hb.resolve_left hvariable) _
      · rename_i hconstant
        exact .timesRight laws (ha.resolve_left hconstant) _

/-- The call that an operator is pushed as. -/
def call (o : RingOperator) : Call α := .operator o.symbol (some (.builtin o.routine))

/-- The routine of an operator computes it. -/
theorem onLiterals_routine (o : RingOperator) (draw x y : α) :
    (Routine.builtin o.routine).onLiterals draw [x, y] = o.apply x y := by
  cases o <;> rfl

/-- No operator uses up a draw. -/
theorem afterDraw_routine (o : RingOperator) (p : Program α) :
    p.afterDraw (.builtin o.routine) = p := by
  cases o <;> rfl

end RingOperator

/-- All folding rules are on. -/
structure Config.FoldsAll (config : Config) : Prop where
  optimizer : config.optimizer = true
  constantFolding : config.constantFolding = true
  linearFolding : config.linearFolding = true

namespace Program

variable {p : Program α} {a b : Value α} {top pos : Int} {rest : List (Instruction α)}

/-- An operator on two literals is computed. -/
theorem foldConstant?_operator (o : RingOperator)
    (hlatest : p.latest = ⟨.value b, top⟩ :: ⟨.value a, pos⟩ :: rest) :
    p.foldConstant? o.call =
      if a.isConstant && b.isConstant then
        some (p.rewound (⟨.value (.literal (o.apply a.offset b.offset)), pos⟩ :: rest),
          .foldedConstant o.symbol (o.apply a.offset b.offset))
      else none := by
  have harity : (o.call : Call α).arity.toNat = 2 := rfl
  have hroutine : (o.call : Call α).routine = some (.builtin o.routine) := rfl
  have hname : (o.call : Call α).name = o.symbol := rfl
  simp only [foldConstant?, harity, hroutine, hname, hlatest, literalOperands?, foldSlots]
  cases a.isConstant <;> cases b.isConstant <;>
    simp [o.onLiterals_routine, o.afterDraw_routine]

/-- Values of at most one variable are added. -/
theorem foldSum_eq (c : Call α) (hlatest : p.latest = ⟨.value b, top⟩ :: ⟨.value a, pos⟩ :: rest)
    (hvariable : a.isConstant = true ∨ b.isConstant = true ∨ a.source = b.source) :
    p.foldSum c =
      .absorbed (p.rewound (⟨.value (a.plus b), pos⟩ :: rest)) [.foldedSum c.name (a.plus b)] := by
  have hmerges : (!a.isConstant && !b.isConstant && a.source != b.source) = false := by
    rcases hvariable with h | h | h <;> simp [h]
  simp only [foldSum, hlatest, hmerges]
  rfl

/-- A value in front of which there is a value is subtracted by adding its opposite. -/
theorem foldDifference_eq (push : Program α → Call α → Step α) (c : Call α)
    (hlatest : p.latest = ⟨.value b, top⟩ :: ⟨.value a, pos⟩ :: rest)
    (hvariable : a.isConstant = true ∨ b.isConstant = true ∨ a.source = b.source) :
    p.foldDifference push c =
      .absorbed (p.rewound (⟨.value (a.plus b.negated), pos⟩ :: rest))
        [.foldedSum "+" (a.plus b.negated)] := by
  have hnegated : a.isConstant = true ∨ b.negated.isConstant = true ∨
      a.source = b.negated.source := hvariable.imp id (.imp Value.isConstant_negated id)
  unfold foldDifference
  rw [hlatest]
  exact foldSum_eq c.asSum rfl hnegated

/-- A value is multiplied by the literal beside it. -/
theorem foldProduct_eq (c : Call α)
    (hlatest : p.latest = ⟨.value b, top⟩ :: ⟨.value a, pos⟩ :: rest)
    (hone : (a.isConstant ^^ b.isConstant) = true) :
    let v := if a.isConstant then b.timesRight a.offset else a.timesRight b.offset
    p.foldProduct c = .absorbed (p.rewound (⟨.value v, pos⟩ :: rest)) [.foldedProduct v] := by
  unfold foldProduct
  rw [hlatest]
  cases ha : a.isConstant with
  | false =>
    have hb : b.isConstant = true := by simpa [ha] using hone
    simp only [ha, hb]
    rfl
  | true =>
    have hb : b.isConstant = false := by simpa [ha] using hone
    simp only [ha, hb]
    rfl

/-- An operator takes the two values in front of it into one, if they are of at most one variable and a
product has a literal among them. -/
theorem fold_operator (hrules : p.config.FoldsAll) {o : RingOperator}
    (hlatest : p.latest = ⟨.value b, top⟩ :: ⟨.value a, pos⟩ :: rest)
    (hvariable : a.isConstant = true ∨ b.isConstant = true ∨ a.source = b.source)
    (hproduct : o = .product → a.isConstant = true ∨ b.isConstant = true) :
    ∃ events, fold (foldDifference pushAgain) p o.call =
      .absorbed (p.rewound (⟨.value (o.combine a b), pos⟩ :: rest)) events := by
  have hlinear : (p.config.linearFolding && (o.call : Call α).binary) = true := by
    rw [hrules.linearFolding]
    rfl
  unfold fold RingOperator.combine
  rw [if_pos hrules.constantFolding, foldConstant?_operator o hlatest, if_pos hlinear]
  by_cases hliterals : (a.isConstant && b.isConstant) = true
  · rw [if_pos hliterals, if_pos hliterals]
    exact ⟨_, rfl⟩
  · rw [if_neg hliterals, if_neg hliterals]
    cases o with
    | sum => exact ⟨_, foldSum_eq _ hlatest hvariable⟩
    | difference => exact ⟨_, foldDifference_eq _ _ hlatest hvariable⟩
    | product =>
      have hone : (a.isConstant ^^ b.isConstant) = true := by
        cases ha : a.isConstant <;> cases hb : b.isConstant <;> simp_all
      exact ⟨_, foldProduct_eq _ hlatest hone⟩

/-- An operator after two values leaves one. -/
theorem Gains.pushOperator {q r : Program α} (hp : p.Gains a q) (hq : q.Gains b r)
    (hsteady : p.IsSteady) (hrules : p.config.FoldsAll) {o : RingOperator}
    (hvariable : a.isConstant = true ∨ b.isConstant = true ∨ a.source = b.source)
    (hproduct : o = .product → a.isConstant = true ∨ b.isConstant = true) :
    ∃ s, (Assembler.pushToken r (.call o.entry 2)).2 = .ok s ∧ p.Gains (o.combine a b) s := by
  have hconfig : r.config = p.config := hq.config.trans hp.config
  have hroom : ((2 : Nat) : Int) ≤ r.stackPos := by
    have hnonneg := hsteady.stackPos_nonneg
    rw [hq.stackPos, hp.stackPos]
    omega
  have hlatest : r.latest =
      ⟨.value b, q.stackPos + 1⟩ :: ⟨.value a, p.stackPos + 1⟩ :: p.latest := by
    rw [hq.latest, hp.latest]
  obtain ⟨events, hfold⟩ := fold_operator (hconfig ▸ hrules) hlatest hvariable hproduct
  have hpush : r.pushCall o.call =
      { program := r.rewound (⟨.value (o.combine a b), p.stackPos + 1⟩ :: p.latest), events } := by
    rw [pushCall, pushCallWith_eq (by decide : (0 : Int) ≤ 2) hroom, hfold, hconfig,
      if_pos hrules.optimizer]
    rfl
  have hcall : (if o.entry.binary then .operator o.entry.name (some (.builtin o.entry.routine))
      else ⟨o.entry.name, some (.builtin o.entry.routine), (2 : Nat), false⟩ : Call α) = o.call := by
    rw [if_pos o.entry_binary, o.entry_name, o.entry_routine]
    rfl
  refine ⟨r.rewound (⟨.value (o.combine a b), p.stackPos + 1⟩ :: p.latest), ?_, hconfig, rfl, rfl⟩
  simp only [Assembler.pushToken, hcall, hpush]
  rw [if_neg (Int.not_lt.mpr hroom)]

end Program

namespace Assembler

/-- Pushes tokens in turn. -/
def pushTokens (p : Program α) (tokens : List (Token α)) : Except Complaint (Program α) :=
  tokens.foldlM (fun p t => (pushToken p t).2) p

/-- Tokens that follow others are pushed after them. -/
theorem pushTokens_append {p q : Program α} {before : List (Token α)}
    (h : pushTokens p before = .ok q) (after : List (Token α)) :
    pushTokens p (before ++ after) = pushTokens q after := by
  rw [pushTokens, List.foldlM_append]
  change (pushTokens p before).bind (pushTokens · after) = _
  rw [h]
  rfl

/-- A token in front is pushed first. -/
theorem pushTokens_cons (p : Program α) (t : Token α) (rest : List (Token α)) :
    pushTokens p (t :: rest) = (pushToken p t).2.bind (pushTokens · rest) := rfl

/-- Pushing texts is pushing the tokens they are read as. -/
theorem pushAll_eq {a : Assembler α} {texts : List String} {tokens : List (Token α)}
    (hreads : a.Reads texts tokens) {p q : Program α} (index : Nat)
    (hpushed : pushTokens p tokens = .ok q) : (a.pushAll p index texts).result = .ok q := by
  induction hreads generalizing p index with
  | nil =>
    cases hpushed
    rfl
  | @cons text t texts tokens ht _ ih =>
    rw [pushTokens_cons] at hpushed
    cases hpush : pushToken p t with
    | mk events result =>
      rw [hpush] at hpushed
      cases result with
      | error c => contradiction
      | ok r => simp only [pushAll, ht, hpush, ih (index + 1) hpushed]

end Assembler

namespace Formula

/-- The value that a formula is folded into. -/
def folded (name : String) (source : Slot) : Formula α → Value α
  | .literal x => .literal x
  | .slot => .ofSlot name (some source)
  | .combined o left right => o.combine (left.folded name source) (right.folded name source)

variable {name : String} {source : Slot}

/-- A formula that does not mention the variable is folded into a constant. -/
theorem isConstant_folded (laws : ZeroLaws α) {f : Formula α} (h : ¬f.Mentions) :
    (f.folded name source).isConstant = true := by
  induction f with
  | literal x => exact Value.isConstant_literal laws x
  | slot => exact absurd trivial h
  | combined o left right ihleft ihright =>
    obtain ⟨hleft, hright⟩ := not_or.mp h
    rw [folded, RingOperator.combine_constant (ihleft hleft) (ihright hright)]
    exact Value.isConstant_literal laws _

/-- A formula is folded into a value of at most its variable. -/
theorem isOf_folded (laws : ZeroLaws α) (f : Formula α) : (f.folded name source).IsOf source := by
  induction f with
  | literal x => exact Or.inl (Value.isConstant_literal laws x)
  | slot => exact Or.inr rfl
  | combined o left right ihleft ihright => exact RingOperator.combine_isOf laws ihleft ihright

/-- The tokens of an affine formula leave one value. -/
theorem pushTokens_tokens (laws : ZeroLaws α) {f : Formula α} (haffine : f.IsAffine)
    {p : Program α} (hsteady : p.IsSteady) (hrules : p.config.FoldsAll) :
    ∃ q, Assembler.pushTokens p (f.tokens name source) = .ok q ∧
      p.Gains (f.folded name source) q := by
  -- The operands are pushed to any steady program, the second on top of the first.
  induction f generalizing p with
  | literal x => exact ⟨_, rfl, .pushValue hsteady _⟩
  | slot => exact ⟨_, rfl, .pushValue hsteady _⟩
  | combined o left right ihleft ihright =>
    obtain ⟨hleft, hright, hproduct⟩ := haffine
    obtain ⟨q, hq, hgains⟩ := ihleft hleft hsteady hrules
    obtain ⟨r, hr, hmore⟩ :=
      ihright hright (hgains.isSteady hsteady) (hgains.config ▸ hrules)
    obtain ⟨s, hs, hresult⟩ := hgains.pushOperator hmore hsteady hrules
      ((isOf_folded laws left).mergeable (isOf_folded laws right))
      fun ho => (hproduct ho).imp (isConstant_folded laws) (isConstant_folded laws)
    refine ⟨s, ?_, hresult⟩
    rw [tokens, List.append_assoc, Assembler.pushTokens_append hq,
      Assembler.pushTokens_append hr, Assembler.pushTokens_cons, hs]
    rfl

end Formula

namespace Assembler

/-- An expression of an affine formula is assembled into a program with all folding rules on. -/
structure AssemblesAffine (a : Assembler α) (name : String) (slot : Slot) (source : String)
    (f : Formula α) (p : Program α) : Prop where
  rules : a.config.FoldsAll
  accepted : (a.assemble source).result = .ok p
  reads : a.Reads (a.tokens source) (f.tokens name slot)
  affine : f.IsAffine

/-- An affine formula is assembled into one value and the end. -/
theorem AssemblesAffine.code_eq {a : Assembler α} {name : String} {slot : Slot} {source : String}
    {f : Formula α} {p : Program α} (h : a.AssemblesAffine name slot source f p)
    (laws : ZeroLaws α) :
    p.code = [⟨.value (f.folded name slot), 1⟩, ⟨.stop, 1⟩] ∧ p.engineId = 0 := by
  have hstart : a.start.Booked := .start a.config a.draws
  obtain ⟨q, hq, hgains⟩ : ∃ q, pushTokens a.start (f.tokens name slot) = .ok q ∧
      a.start.Gains (f.folded name slot) q :=
    Formula.pushTokens_tokens laws h.affine hstart.isSteady h.rules
  have hblank := (assemble_pushed h.accepted).1
  have hpushed : (a.pushAll a.start 0 (a.tokens source)).result = .ok q := pushAll_eq h.reads 0 hq
  have hresult := assemble_eq hblank rfl hpushed hgains.stackPos
  rw [h.accepted] at hresult
  cases hresult
  exact Program.finalize_value hgains.latest hgains.stackPos

end Assembler

end StackCode
