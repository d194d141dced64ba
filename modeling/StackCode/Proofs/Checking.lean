import StackCode.Arithmetic.Binary64
import StackCode.Evaluation
import StackCode.Program.Verify
import StackCode.Proofs.StackPointer

/-!
# The check is exact

The check simulates the depth of a program with counters that could wrap around, and goes on after a
missing operand as if just enough had been there. A run of the program on a stack of slots does
neither. Still the check finds nothing exactly if every instruction is sound where the run meets it.
Up to the first fault both are at the same depth, which the instructions so far bound, and at the
first fault the check has found something, whatever it compares later.

The high-water mark is one slot short of the stack. So a run that the check accepts also has a slot
for the result of a call without operands, and touches no slot outside the stack.
-/

namespace StackCode

universe u

variable {α : Type u}

/-- What the check asks of an instruction that `after` follows, with the pointer at `sp`: it finds
its operands, it leaves the pointer at its stamp, it is no operator that was not stored as a call,
and it is no end unless it is the last one. -/
structure Instruction.Sound (i : Instruction α) (sp : Int) (after : List (Instruction α)) :
    Prop where
  ready : i.operation.Ready sp
  stamp : i.operation.advance sp = i.stackPos
  stored : ∀ c, i.operation = .call c → c.binary = false
  last : i.operation = .stop → after = []

/-- Every instruction is sound where a run from a pointer meets it. -/
def RunsSoundly (sp : Int) (code : List (Instruction α)) : Prop :=
  ∀ before i after, code = before ++ i :: after →
    i.Sound (pointer sp (before.map Instruction.operation)) after

/-- A run is sound if its first instruction is and the run goes on soundly. -/
theorem runsSoundly_cons_iff {sp : Int} {i : Instruction α} {rest : List (Instruction α)} :
    RunsSoundly sp (i :: rest) ↔
      i.Sound sp rest ∧ RunsSoundly (i.operation.advance sp) rest := forall_split_cons

namespace Operation

variable {o : Operation α} {index : Nat} {depth : Int}

/-- Only an end is of the kind of an end. -/
theorem kind_eq_stop_iff : o.kind = .stop ↔ o = .stop := by
  cases o with
  | value v => simp [kind]
  | call c => cases hbinary : c.binary <;> simp [kind, hbinary]
  | assign a => simp [kind]
  | stop => simp [kind]

/-- The check finds nothing wrong with an operation exactly if it finds its operands, is no operator,
and is no end before the last instruction. -/
theorem findings_eq_nil_iff {last : Bool} :
    o.findings index last depth = [] ↔
      o.Ready depth ∧ (∀ c, o = .call c → c.binary = false) ∧ (o = .stop → last = true) := by
  cases o with
  | value v => simp [findings, Ready]
  | call c => simp [findings, Ready, and_comm]
  | assign a => simp only [findings, Ready, ite_eq_right_iff, List.cons_ne_nil, imp_false, Int.not_lt,
      reduceCtorEq, false_implies, implies_true, and_true]
  | stop => simp [findings, Ready]

/-- The check moves the depth as the pointer. No counter wraps around, because no depth exceeds the
number of instructions before. -/
theorem depthAfter_eq_advance (hcount : o.Countable) (hready : o.Ready depth) (hnonneg : 0 ≤ depth)
    (hbound : depth ≤ index) : o.depthAfter index depth = o.advance depth := by
  cases o with
  | value v => exact settle_of_le (by omega) (by omega)
  | call c =>
    have harity := hcount c rfl
    simp only [Ready] at hready
    rw [depthAfter, if_neg (Int.not_lt.mpr hready)]
    exact settle_of_le (by omega) (by omega)
  | assign a => exact if_neg (Int.not_lt.mpr hready)
  | stop => rfl

end Operation

/-- The check of a sequence finds nothing exactly if the sequence runs soundly. -/
theorem verifyFrom_findings_iff (index : Nat) (maxDepth : Int) {code : List (Instruction α)}
    {depth : Int} (hcount : ∀ i ∈ code, i.operation.Countable) (hnonneg : 0 ≤ depth)
    (hbound : depth ≤ index) :
    (verifyFrom index depth maxDepth code).findings = [] ↔ RunsSoundly depth code := by
  induction code generalizing index depth maxDepth with
  | nil => simp [verifyFrom, RunsSoundly]
  | cons i rest ih =>
    obtain ⟨hi, hrest⟩ := List.forall_mem_cons.mp hcount
    rw [runsSoundly_cons_iff]
    simp only [verifyFrom, List.append_eq_nil_iff, Operation.findings_eq_nil_iff,
      List.isEmpty_iff, ite_eq_left_iff, List.cons_ne_nil, imp_false, Decidable.not_not]
    -- Both sides ask for the operands; with these, check and run agree on the next depth.
    by_cases hready : i.operation.Ready depth
    · have hafter := Operation.depthAfter_eq_advance hi hready hnonneg hbound
      obtain ⟨hnext, hle⟩ := Operation.advance_bounds hi hready hnonneg
      rw [hafter, ih (index + 1) _ hrest hnext (by omega)]
      apply and_congr_left
      intro _
      constructor
      · rintro ⟨⟨-, hstored, hlast⟩, hstamp⟩
        exact ⟨hready, hstamp.symm, hstored, hlast⟩
      · rintro ⟨-, hstamp, hstored, hlast⟩
        exact ⟨⟨hready, hstored, hlast⟩, hstamp.symm⟩
    · constructor
      · rintro ⟨⟨⟨h, -⟩, -⟩, -⟩
        exact absurd h hready
      · rintro ⟨h, -⟩
        exact absurd h.ready hready

/-- The check of a sequence that runs soundly ends at the last pointer, and its largest depth is the
largest pointer. -/
theorem RunsSoundly.verifyFrom_depths {depth : Int} {code : List (Instruction α)}
    (h : RunsSoundly depth code) (index : Nat) (maxDepth : Int)
    (hcount : ∀ i ∈ code, i.operation.Countable) (hnonneg : 0 ≤ depth) (hbound : depth ≤ index)
    (hmax : depth ≤ maxDepth) :
    let check := verifyFrom index depth maxDepth code
    check.finalDepth = pointer depth (code.map Instruction.operation) ∧
      check.maxDepth = max maxDepth (peak depth (code.map Instruction.operation)) := by
  induction code generalizing index depth maxDepth with
  | nil => exact ⟨rfl, (Int.max_eq_left hmax).symm⟩
  | cons i rest ih =>
    obtain ⟨hi, hrest⟩ := List.forall_mem_cons.mp hcount
    obtain ⟨hsound, hmore⟩ := runsSoundly_cons_iff.mp h
    have hafter := Operation.depthAfter_eq_advance hi hsound.ready hnonneg hbound
    obtain ⟨hnext, hle⟩ := Operation.advance_bounds hi hsound.ready hnonneg
    obtain ⟨hfinal, hlargest⟩ := ih hmore (index + 1) (max maxDepth (i.operation.advance depth))
      hrest hnext (by omega) (Int.le_max_right _ _)
    have htop := le_peak (i.operation.advance depth) (rest.map Instruction.operation)
    simp only [verifyFrom, hafter, List.map_cons, pointer_cons, peak]
    refine ⟨hfinal, ?_⟩
    rw [hlargest]
    omega

/-- A body of stored operations and an end run soundly exactly if the stamps of the body are the
simulated depths and the end stands at the last pointer. -/
theorem runsSoundly_closed_iff {depth d : Int} {body : List (Instruction α)}
    (hstorable : ∀ i ∈ body, i.operation.Storable) :
    RunsSoundly depth (body ++ [⟨.stop, d⟩]) ↔
      simulate? depth body = some (body.map Instruction.stackPos) ∧
        pointer depth (body.map Instruction.operation) = d := by
  induction body generalizing depth with
  | nil =>
    rw [List.nil_append, runsSoundly_cons_iff]
    constructor
    · rintro ⟨hend, -⟩
      exact ⟨rfl, hend.stamp⟩
    · rintro ⟨-, hend⟩
      refine ⟨⟨trivial, hend, nofun, fun _ => rfl⟩, ?_⟩
      simp [RunsSoundly]
  | cons i rest ih =>
    obtain ⟨hi, hrest⟩ := List.forall_mem_cons.mp hstorable
    rw [List.cons_append, runsSoundly_cons_iff, simulate?_cons_iff, Operation.depth?_eq_some_iff,
      ih hrest, List.map_cons, pointer_cons]
    constructor
    · rintro ⟨hsound, hmore, hend⟩
      exact ⟨⟨⟨hsound.ready, hsound.stamp⟩, hsound.stamp ▸ hmore⟩, hend⟩
    · rintro ⟨⟨⟨hready, hstamp⟩, hmore⟩, hend⟩
      refine ⟨⟨hready, hstamp, hi.stored, ?_⟩, hstamp ▸ hmore, hend⟩
      exact fun hstop => absurd hstop hi.ne_stop

namespace Program

variable {p : Program α}

/-- A program is sealed exactly if its last instruction is an end. -/
theorem isFinalized_iff :
    p.isFinalized = true ↔ ∃ body last, p.code = body ++ [last] ∧ last.operation = .stop := by
  unfold isFinalized code
  cases p.latest with
  | nil => simp
  | cons i rest =>
    simp only [beq_iff_eq, Instruction.kind, Operation.kind_eq_stop_iff, List.reverse_cons]
    constructor
    · intro h
      exact ⟨rest.reverse, i, rfl, h⟩
    · rintro ⟨body, last, heq, h⟩
      obtain ⟨-, hlast⟩ := List.append_inj' heq rfl
      rw [List.singleton_inj.mp hlast]
      exact h

/-- The check of a program that runs soundly ends at the last pointer, and its largest depth is the
largest pointer. -/
theorem verify_depths (hcount : ∀ i ∈ p.code, i.operation.Countable)
    (hsound : RunsSoundly 0 p.code) :
    p.verify.finalDepth = pointer 0 p.operations ∧ p.verify.maxDepth = peak 0 p.operations := by
  obtain ⟨hfinal, hmax⟩ := hsound.verifyFrom_depths 0 0 hcount (Int.le_refl 0) (Int.le_refl 0)
    (Int.le_refl 0)
  rw [Int.max_eq_right (le_peak 0 _)] at hmax
  exact ⟨hfinal, hmax⟩

/-- The check of a program finds nothing exactly if the program is sealed, runs soundly, and its
high-water mark is at least every pointer. -/
theorem verify_findings_iff (hcount : ∀ i ∈ p.code, i.operation.Countable) :
    p.verify.findings = [] ↔
      p.isFinalized = true ∧ RunsSoundly 0 p.code ∧ peak 0 p.operations ≤ p.highWater := by
  have hfindings := verifyFrom_findings_iff 0 0 hcount (Int.le_refl 0) (Int.le_refl 0)
  simp only [verify, List.append_eq_nil_iff, hfindings, ite_eq_left_iff, ite_eq_right_iff,
    List.cons_ne_nil, imp_false, Bool.not_eq_true, Bool.not_eq_false, Int.not_lt, and_assoc]
  apply and_congr_right
  intro _
  apply and_congr_right
  intro hsound
  rw [← (verify_depths hcount hsound).2]
  rfl

/-- The last instruction of a program is its only end exactly if the program is sealed and nothing
follows an end. -/
theorem only_end_iff :
    (∃ body last, p.code = body ++ [last] ∧ last.operation = .stop ∧
        ∀ i ∈ body, i.operation ≠ .stop) ↔
      p.isFinalized = true ∧
        ∀ before i after, p.code = before ++ i :: after → i.operation = .stop → after = [] := by
  constructor
  · rintro ⟨body, last, hcode, hlast, hbody⟩
    refine ⟨isFinalized_iff.mpr ⟨body, last, hcode, hlast⟩, ?_⟩
    intro before i after hsplit hstop
    rcases List.eq_nil_or_concat after with rfl | ⟨more, j, rfl⟩
    · rfl
    · have heq : body ++ [last] = (before ++ i :: more) ++ [j] := by
        simp [← hcode, hsplit]
      obtain ⟨rfl, -⟩ := List.append_inj' heq rfl
      exact absurd hstop (hbody i (by simp))
  · rintro ⟨hsealed, hends⟩
    obtain ⟨body, last, hcode, hlast⟩ := isFinalized_iff.mp hsealed
    refine ⟨body, last, hcode, hlast, ?_⟩
    intro i hi hstop
    obtain ⟨before, after, rfl⟩ := List.append_of_mem hi
    have hnil := hends before i (after ++ [last]) (by simp [hcode]) hstop
    simp at hnil

/-- A program that runs soundly up to its end starts within any bound of the pointers that its
instructions leave. -/
theorem peak_le_of_sealed {bound : Int} (hsealed : p.isFinalized = true)
    (hsound : RunsSoundly 0 p.code) (hcount : ∀ i ∈ p.code, i.operation.Countable)
    (hbound : ∀ before i after, p.code = before ++ i :: after →
      i.operation.advance (pointer 0 (before.map Instruction.operation)) ≤ bound) :
    peak 0 p.operations ≤ bound := by
  obtain ⟨body, last, hcode, hlast⟩ := isFinalized_iff.mp hsealed
  have hnonneg : 0 ≤ pointer 0 (body.map Instruction.operation) :=
    pointer_nonneg hcount (Int.le_refl 0) (fun before i after h => (hsound before i after h).ready)
      body [last] hcode
  have hend := hbound body last [] hcode
  rw [hlast] at hend
  exact peak_le_iff.mpr ⟨Int.le_trans hnonneg hend, hbound⟩

end Program

/-- The check is sound and complete. Whatever the stamps and the high-water mark of a program, as long
as no call takes a negative number of operands, the check finds nothing exactly if the program has a
last instruction, which is its only end, no call is an operator, and at every instruction of a run
the operands are there, the pointer moves to the recorded stamp, and it stays below the last slot of
the stack. The final depth is then the last pointer, the maximal depth is the largest one, and every
slot that the run touches is a slot of the stack. -/
theorem verify_sound_and_complete (p : Program α)
    (harity : ∀ i ∈ p.code, ∀ c, i.operation = .call c → 0 ≤ c.arity) :
    (p.verify.findings = [] ↔
      (∃ body last, p.code = body ++ [last] ∧ last.operation = .stop ∧
        ∀ i ∈ body, i.operation ≠ .stop) ∧
      (∀ i ∈ p.code, ∀ c, i.operation = .call c → c.binary = false) ∧
      ∀ before i after, p.code = before ++ i :: after →
        let sp := pointer 0 (before.map Instruction.operation)
        i.operation.Ready sp ∧ i.operation.advance sp ≤ p.maxStackSize - 1 ∧
          i.operation.advance sp = i.stackPos) ∧
    (p.verify.findings = [] →
      p.verify.finalDepth = pointer 0 p.operations ∧
      IsGreatest {sp | ∃ before, before <+: p.operations ∧ pointer 0 before = sp}
        p.verify.maxDepth ∧
      ∀ before i after, p.code = before ++ i :: after → ∀ slot,
        i.operation.Touches (pointer 0 (before.map Instruction.operation)) slot →
          0 ≤ slot ∧ slot < p.maxStackSize) := by
  have hwater : p.maxStackSize - 1 = p.highWater := Int.add_sub_cancel _ _
  rw [p.verify_findings_iff harity, hwater, Program.only_end_iff]
  refine ⟨⟨?_, ?_⟩, ?_⟩
  · rintro ⟨hsealed, hsound, hpeak⟩
    refine ⟨⟨hsealed, fun before i after hcode => (hsound before i after hcode).last⟩, ?_, ?_⟩
    · intro i hi
      obtain ⟨before, after, hcode⟩ := List.append_of_mem hi
      exact (hsound before i after hcode).stored
    · intro before i after hcode
      have hi := hsound before i after hcode
      exact ⟨hi.ready, (peak_le_iff.mp hpeak).2 before i after hcode, hi.stamp⟩
  · rintro ⟨⟨hsealed, hends⟩, hstored, hrun⟩
    have hsound : RunsSoundly 0 p.code := by
      intro before i after hcode
      obtain ⟨hready, -, hstamp⟩ := hrun before i after hcode
      exact ⟨hready, hstamp, hstored i (by simp [hcode]), hends before i after hcode⟩
    refine ⟨hsealed, hsound, Program.peak_le_of_sealed hsealed hsound harity ?_⟩
    exact fun before i after hcode => (hrun before i after hcode).2.1
  · rintro ⟨hsealed, hsound, hpeak⟩
    obtain ⟨hfinal, hmax⟩ := Program.verify_depths harity hsound
    have hgreatest := isGreatest_peak 0 p.operations
    refine ⟨hfinal, hmax ▸ hgreatest, ?_⟩
    intro before i after hcode slot htouch
    have hready := (hsound before i after hcode).ready
    have hnonneg : 0 ≤ pointer 0 (before.map Instruction.operation) :=
      pointer_nonneg harity (Int.le_refl 0) (fun b j c h => (hsound b j c h).ready)
        before (i :: after) hcode
    have hbegins : before <+: p.code := ⟨i :: after, hcode.symm⟩
    have hbefore : pointer 0 (before.map Instruction.operation) ≤ peak 0 p.operations :=
      hgreatest.2 ⟨_, hbegins.map Instruction.operation, rfl⟩
    have hafter := (peak_le_iff.mp hpeak).2 before i after hcode
    have hi : i ∈ p.code := by simp [hcode]
    exact htouch.inside (harity i hi) hready hnonneg (by omega) (by omega)

/-- A program that assigns a literal, then adds a draw to it. -/
def assignedProgram : Program Float where
  draws := fun _ => 0
  latest := [⟨.stop, 1⟩, ⟨.call ⟨"+", none, 2, false⟩, 1⟩, ⟨.call ⟨"rnd", none, 0, false⟩, 2⟩,
    ⟨.assign ⟨"=x", some "x"⟩, 1⟩, ⟨.value (.literal 1), 2⟩, ⟨.value (.literal 0), 1⟩]
  stackPos := 1
  highWater := 2

/-- A program whose call has no operand, with the stamps that would be right if it had one. -/
def repairedProgram : Program Float where
  draws := fun _ => 0
  latest := [⟨.stop, 1⟩, ⟨.call ⟨"abs", none, 1, false⟩, 1⟩]
  stackPos := 1
  highWater := 1

/-- The check accepts a program whose draw touches the last slot of the stack, and refuses one that
only the repaired depth would pass. -/
theorem verify_sound_and_complete_assignment :
    (∀ i ∈ assignedProgram.code, ∀ c, i.operation = .call c → 0 ≤ c.arity) ∧
    assignedProgram.verify.findings = [] ∧
    assignedProgram.verify.finalDepth = pointer 0 assignedProgram.operations ∧
    IsGreatest {sp | ∃ before, before <+: assignedProgram.operations ∧ pointer 0 before = sp}
      assignedProgram.verify.maxDepth ∧
    (∀ i ∈ repairedProgram.code, ∀ c, i.operation = .call c → 0 ≤ c.arity) ∧
    repairedProgram.verify.findings ≠ [] := by
  have hassigned : ∀ i ∈ assignedProgram.code, ∀ c, i.operation = .call c → 0 ≤ c.arity := by
    simp [assignedProgram, Program.code]
  have hrepaired : ∀ i ∈ repairedProgram.code, ∀ c, i.operation = .call c → 0 ≤ c.arity := by
    simp [repairedProgram, Program.code]
  have hnothing : assignedProgram.verify.findings = [] := rfl
  obtain ⟨hfinal, hmax, -⟩ := (verify_sound_and_complete _ hassigned).2 hnothing
  refine ⟨hassigned, hnothing, hfinal, hmax, hrepaired, ?_⟩
  intro hfindings
  obtain ⟨-, -, hrun⟩ := (verify_sound_and_complete _ hrepaired).1.mp hfindings
  have hready : (1 : Int) ≤ 0 := (hrun [] _ _ rfl).1
  contradiction

end StackCode
