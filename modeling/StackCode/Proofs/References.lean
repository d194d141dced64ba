import Mathlib.Logic.Basic
import StackCode.Proofs.MachineZero
import StackCode.Proofs.Verification

/-!
# Values keep their variables

A value has a name, a source and a coefficient, and folding changes them one at a time: it merges
values, scales and negates them, and drops a variable part that has vanished. In an assembled
program they stay in step. A value with a coefficient of zero has neither source nor name, and any
other value reads the slot that is bound to its name.

The coefficient tells which of the two it is, so this rests on the numbers: a sum of zeros is a
zero, one is none, and only a zero is negated to a zero. A coefficient that cancels or underflows
needs no law, since every merged or scaled value is looked at once more.
-/

namespace StackCode

universe u

variable {α : Type u}

/-- What telling literals from variables relies on. -/
structure CoefficientLaws (α : Type u) [Arithmetic α] : Prop extends ZeroLaws α where
  one : Arithmetic.isZero (Arithmetic.one : α) = false
  neg {x : α} (h : Arithmetic.isZero (Arithmetic.neg x) = true) : Arithmetic.isZero x = true

/-- Machine numbers have the laws of coefficients. -/
theorem Binary64.coefficientLaws : CoefficientLaws Float where
  toZeroLaws := zeroLaws
  one := by decide +kernel
  neg := isZero_of_isZero_neg

/-- A variable that is read is bound to its slot. -/
theorem Assembler.lookup_of_token_slot {a : Assembler α} {text name : String}
    {slot : Slot} (h : a.token text = .ok (.slot name slot)) :
    a.slots.lookup name = some slot := by
  unfold token at h
  split at h
  · contradiction
  · split at h
    · cases h
    · split at h
      · dsimp only at h
        split at h <;> cases h
      · split at h
        · contradiction
        · split at h
          · cases hcount : CatalogEntry.operands _ _ <;> rw [hcount] at h <;> cases h
          · contradiction
          · split at h
            · rename_i hlookup
              cases h
              exact hlookup
            · contradiction

section

variable [Arithmetic α]

namespace Value

/-- A constant without a trace of a variable. -/
structure IsLiteral (v : Value α) : Prop where
  constant : v.isConstant = true
  source : v.source = none
  name : v.name = ""

/-- A multiple of the variable of its name, which is bound to the slot. -/
structure RefersTo (slots : List (String × Slot)) (slot : Slot) (v : Value α) : Prop where
  nonconstant : v.isConstant = false
  source : v.source = some slot
  bound : slots.lookup v.name = some slot

/-- A literal, or a multiple of the variable of its name. -/
def KeepsReference (slots : List (String × Slot)) (v : Value α) : Prop :=
  v.IsLiteral ∨ ∃ slot, v.RefersTo slots slot

variable {slots : List (String × Slot)} {slot : Slot} {a b v : Value α}

/-- No value is both a literal and a multiple of a variable. -/
theorem KeepsReference.xor (h : v.KeepsReference slots) :
    Xor v.IsLiteral (∃ slot, v.RefersTo slots slot) := by
  rcases h with hliteral | ⟨slot, hrefers⟩
  · refine Or.inl ⟨hliteral, ?_⟩
    rintro ⟨slot, hrefers⟩
    exact absurd hliteral.constant (by simp [hrefers.nonconstant])
  · refine Or.inr ⟨⟨slot, hrefers⟩, fun hliteral => ?_⟩
    exact absurd hliteral.constant (by simp [hrefers.nonconstant])

/-- A value that keeps its reference and is not constant refers to a slot. -/
theorem KeepsReference.refersTo (h : v.KeepsReference slots) (hv : v.isConstant = false) :
    ∃ slot, v.RefersTo slots slot :=
  h.resolve_left fun hliteral => absurd hliteral.constant (by simp [hv])

/-- A literal has no trace of a variable. -/
theorem isLiteral_literal (laws : ZeroLaws α) (x : α) : (Value.literal x).IsLiteral :=
  ⟨isConstant_literal laws x, rfl, rfl⟩

/-- Another coefficient and offset leave the variable alone, unless the coefficient is a zero. -/
theorem RefersTo.rescaled (h : v.RefersTo slots slot) {coef offset : α}
    (hcoef : Arithmetic.isZero coef = false) :
    Value.RefersTo slots slot { v with coef, offset } := ⟨hcoef, h.source, h.bound⟩

/-- A value that keeps its reference if it is not constant does so once a vanished variable part is
dropped. -/
theorem KeepsReference.normalized (laws : ZeroLaws α)
    (h : v.isConstant = false → v.KeepsReference slots) : v.normalized.KeepsReference slots := by
  unfold Value.normalized
  split
  · exact Or.inl (isLiteral_literal laws v.offset)
  · rename_i hvariable
    exact h (Bool.eq_false_iff.mpr hvariable)

/-- A sum keeps the reference of its parts. -/
theorem KeepsReference.plus (laws : ZeroLaws α) (ha : a.KeepsReference slots)
    (hb : b.KeepsReference slots) : (a.plus b).KeepsReference slots := by
  unfold Value.plus
  apply KeepsReference.normalized laws
  intro hcoef
  split
  · rename_i hconstant
    rcases ha with hliteral | ⟨slot, hrefers⟩
    · -- Both are constants, so the sum of their coefficients is a zero.
      have hzero := laws.add hliteral.constant hconstant
      rw [if_pos hconstant] at hcoef
      exact absurd hzero (Bool.eq_false_iff.mp hcoef)
    · rw [if_pos hconstant] at hcoef
      exact Or.inr ⟨slot, hrefers.rescaled hcoef⟩
  · rename_i hvariable
    rw [if_neg hvariable] at hcoef
    obtain ⟨slot, hrefers⟩ := hb.refersTo (Bool.eq_false_iff.mpr hvariable)
    exact Or.inr ⟨slot, hrefers.rescaled hcoef⟩

/-- A multiple keeps the reference. -/
theorem KeepsReference.timesRight (laws : ZeroLaws α) (hvariable : a.isConstant = false)
    (ha : a.KeepsReference slots) (k : α) : (a.timesRight k).KeepsReference slots := by
  unfold Value.timesRight
  apply KeepsReference.normalized laws
  intro hcoef
  obtain ⟨slot, hrefers⟩ := ha.refersTo hvariable
  exact Or.inr ⟨slot, hrefers.rescaled hcoef⟩

/-- The opposite keeps the reference. -/
theorem KeepsReference.negated (laws : CoefficientLaws α) (h : v.KeepsReference slots) :
    v.negated.KeepsReference slots := by
  rcases h with hliteral | ⟨slot, hrefers⟩
  · exact Or.inl ⟨isConstant_negated hliteral.constant, hliteral.source, hliteral.name⟩
  · refine Or.inr ⟨slot, hrefers.rescaled ?_⟩
    have hvariable : ¬Arithmetic.isZero v.coef = true := Bool.eq_false_iff.mp hrefers.nonconstant
    rw [if_neg hvariable]
    exact Bool.eq_false_iff.mpr fun hzero => hvariable (laws.neg hzero)

/-- A value that refers to a slot reads it. -/
theorem RefersTo.eval_eq (h : v.RefersTo slots slot) (store : Slot → α) :
    v.eval store = .ok (Arithmetic.add (Arithmetic.mul (store slot) v.coef) v.offset) := by
  simp only [eval, h.nonconstant, h.source, Bool.false_eq_true, if_false]

/-- A value that keeps its reference can be evaluated. -/
theorem KeepsReference.exists_eval (h : v.KeepsReference slots) (store : Slot → α) :
    ∃ x, v.eval store = .ok x := by
  rcases h with hliteral | ⟨slot, hrefers⟩
  · exact ⟨v.offset, if_pos hliteral.constant⟩
  · exact ⟨_, hrefers.eval_eq store⟩

end Value

/-- Values keep their references. -/
def Operation.KeepsReference (slots : List (String × Slot)) (o : Operation α) : Prop :=
  ∀ v, o = .value v → v.KeepsReference slots

/-- Folding keeps references. -/
theorem foldClosed_keepsReference (laws : CoefficientLaws α) (config : Config)
    (slots : List (String × Slot)) :
    FoldClosed config (Operation.KeepsReference slots : Operation α → Prop) :=
  foldClosed_values (fun x => Or.inl (Value.isLiteral_literal laws.toZeroLaws x))
    (fun _ _ ha hb => ha.plus laws.toZeroLaws hb)
    (fun _ hvariable ha k => ha.timesRight laws.toZeroLaws hvariable k)
    fun _ hv => hv.negated laws

namespace Assembler

variable {a : Assembler α}

/-- What a token is pushed as keeps its reference. -/
theorem pushed_keepsReference (laws : CoefficientLaws α) {text : String} {t : Token α}
    (h : a.token text = .ok t) : t.pushed.KeepsReference a.slots := by
  intro v hv
  cases t with
  | literal x =>
    cases hv
    exact Or.inl (Value.isLiteral_literal laws.toZeroLaws x)
  | slot name slot =>
    cases hv
    exact Or.inr ⟨slot, laws.one, rfl, lookup_of_token_slot h⟩
  | call entry arity => contradiction
  | assign name target => contradiction

/-- A property that folding and fusion keep holds of every operation of an accepted expression if
the tokens have it. -/
theorem assemble_holds {P : Operation α → Prop} (hP : FoldClosed a.config P)
    (hfused : ∀ n t c : Call α, FusedCall n t c → P (.call c)) (hstop : P .stop)
    (htokens : ∀ text t, a.token text = .ok t → P t.pushed) {source : String} {p : Program α}
    (hok : (a.assemble source).result = .ok p) : ∀ i ∈ p.code, P i.operation := by
  obtain ⟨-, tokens, q, hreads, -, hpushed, -, rfl⟩ := assemble_pushed hok
  have hq : q.Holds P :=
    hpushed.holds_of_mem hP (fun i hi => absurd hi List.not_mem_nil) (hreads.forall_mem htokens)
  have hsubstitute : q.substitute.program.Holds P := by
    rw [Program.Holds, Program.substitute_latest]
    split
    · exact fusedLatest_holds hfused hq
    · exact hq
  obtain ⟨hcode, -, -⟩ := Program.finalize_eq hpushed.substitute_booked.stamped.storable
  rw [hcode, List.forall_mem_append, List.forall_mem_singleton]
  exact ⟨fun i hi => hsubstitute i (List.mem_reverse.mp hi), hstop⟩

/-- The values of an accepted expression keep their references. -/
theorem assemble_keepsReference (laws : CoefficientLaws α) {source : String} {p : Program α}
    (hok : (a.assemble source).result = .ok p) :
    ∀ i ∈ p.code, i.operation.KeepsReference a.slots := by
  refine assemble_holds (foldClosed_keepsReference laws a.config a.slots) ?_ ?_ ?_ hok
  · intro n t c _ v hv
    contradiction
  · intro v hv
    contradiction
  · exact fun text t ht => pushed_keepsReference laws ht

end Assembler

end

/-- Folded values keep a true reference to their variable. In an accepted expression, every value is
either a literal without source and name, or has a coefficient other than zero and reads the slot
that is bound to its name; and it is never both. So every value can be evaluated, whatever the slots
hold, and the identifier in the dump of a value is that of the variable that is read. -/
theorem folded_values_keep_references (a : Assembler Float) (source : String) (p : Program Float)
    (hok : (a.assemble source).result = .ok p) (i : Instruction Float) (hi : i ∈ p.code)
    (v : Value Float) (hv : i.operation = .value v) :
    Xor v.IsLiteral (∃ slot, v.RefersTo a.slots slot) ∧
    (∀ store, ∃ x, v.eval store = .ok x) ∧
    (v.IsLiteral → ∀ index, "[ADDR: null]" ∈ i.dumpPieces index) ∧
    ∀ slot, v.RefersTo a.slots slot →
      (∀ store, v.eval store = .ok (store slot * v.coef + v.offset)) ∧
      ∀ index, "[ADDR: slot][IDENT:" ++ v.name ++ "][COEF:" ++ general v.coef ++ "]" ∈
        i.dumpPieces index := by
  have hkeeps : v.KeepsReference a.slots :=
    Assembler.assemble_keepsReference Binary64.coefficientLaws hok i hi v hv
  refine ⟨hkeeps.xor, hkeeps.exists_eval, fun hliteral index => ?_, fun slot hrefers => ?_⟩
  · simp [Instruction.dumpPieces, hv, hliteral.constant]
  · refine ⟨hrefers.eval_eq, fun index => ?_⟩
    simp [Instruction.dumpPieces, hv, hrefers.nonconstant]

/-- A sum of multiples of one variable is one value, which refers to that variable. -/
theorem folded_values_keep_references_sum :
    ∃ (p : Program Float) (v : Value Float),
      (foldingAssembler.assemble "x,2,*,x,+").result = .ok p ∧
      p.code = [⟨.value v, 1⟩, ⟨.stop, 1⟩] ∧
      Xor v.IsLiteral (∃ slot, v.RefersTo foldingAssembler.slots slot) ∧
      ∀ store, ∃ x, v.eval store = .ok x := by
  have htexts : foldingAssembler.tokens "x,2,*,x,+" = ["x", "2", "*", "x", "+"] := by cbv
  obtain ⟨q, hpushed, v, hlatest, hone⟩ : ∃ q,
      (foldingAssembler.pushAll foldingAssembler.start 0 ["x", "2", "*", "x", "+"]).result = .ok q ∧
      ∃ v, q.latest = [⟨.value v, 1⟩] ∧ q.stackPos = 1 := ⟨_, rfl, _, rfl, rfl⟩
  have hok := Assembler.assemble_eq (by cbv) htexts hpushed hone
  obtain ⟨hcode, -⟩ := Program.finalize_value hlatest hone
  obtain ⟨hreference, heval, -⟩ := folded_values_keep_references foldingAssembler _ _ hok
    ⟨.value v, 1⟩ (by simp [hcode]) v rfl
  exact ⟨_, v, hok, hcode, hreference, heval⟩

end StackCode
