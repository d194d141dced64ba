import Mathlib.Order.Bounds.Basic
import StackCode.Proofs.Depth

/-!
# The stack pointer of a run

An evaluator keeps its stack in slots, with a pointer to the first free one. A value is written at
the pointer. A call finds its operands in the slots below the pointer and leaves its result in the
first of them, or at the pointer if it has none. An assignment reads the slot below the pointer and
writes the one below that. So the pointer of a run does not depend on what the slots hold, and the
largest pointer says how many of them a run can use.

The simulated depth moves as the pointer, as long as every operation finds its operands. So right
stamps are the pointers of a run.
-/

namespace StackCode

universe u

variable {α : Type u}

namespace Operation

/-- An operation finds its operands below the pointer. -/
def Ready (sp : Int) : Operation α → Prop
  | .call c => c.arity ≤ sp
  | .assign _ => 2 ≤ sp
  | _ => True

/-- The pointer after an operation. -/
def advance (sp : Int) : Operation α → Int
  | .value _ => sp + 1
  | .call c => sp - c.arity + 1
  | .assign _ => sp - 1
  | .stop => sp

/-- An operation reads or writes a slot. -/
def Touches (sp slot : Int) : Operation α → Prop
  | .value _ => slot = sp
  | .call c => slot = sp - c.arity ∨ (sp - c.arity < slot ∧ slot < sp)
  | .assign _ => slot = sp - 1 ∨ slot = sp - 2
  | .stop => False

/-- No call takes a negative number of operands. -/
def Countable (o : Operation α) : Prop := ∀ c, o = .call c → 0 ≤ c.arity

/-- A stored call takes no negative number of operands. -/
theorem Storable.countable {o : Operation α} (h : o.Storable) : o.Countable := by
  rintro c rfl
  exact h.2

/-- A stored call is no operator. -/
theorem Storable.stored {o : Operation α} (h : o.Storable) :
    ∀ c, o = .call c → c.binary = false := by
  rintro c rfl
  exact h.1

/-- No end is stored. -/
theorem Storable.ne_stop {o : Operation α} (h : o.Storable) : o ≠ .stop := by
  rintro rfl
  exact h

/-- The simulation moves the depth as the pointer, if the operands are there. -/
theorem depth?_eq_some_iff {o : Operation α} {sp d : Int} :
    o.depth? sp = some d ↔ o.Ready sp ∧ o.advance sp = d := by
  cases o with
  | value v => simp [depth?, Ready, advance]
  | call c => simp [depth?, Ready, advance]
  | assign a => simp [depth?, Ready, advance]
  | stop => simp [depth?, Ready, advance]

/-- No operation that finds its operands moves the pointer below the stack, or up by more than one
slot. -/
theorem advance_bounds {o : Operation α} {sp : Int} (hcount : o.Countable) (hready : o.Ready sp)
    (hnonneg : 0 ≤ sp) : 0 ≤ o.advance sp ∧ o.advance sp ≤ sp + 1 := by
  cases o with
  | value v =>
    simp only [advance]
    omega
  | call c =>
    have harity := hcount c rfl
    simp only [Ready] at hready
    simp only [advance]
    omega
  | assign a =>
    simp only [Ready] at hready
    simp only [advance]
    omega
  | stop =>
    simp only [advance]
    omega

/-- An operation that finds its operands touches slots of the stack only, if one slot more than the
pointers before and after it is there. -/
theorem Touches.inside {o : Operation α} {sp slot size : Int} (h : o.Touches sp slot)
    (hcount : o.Countable) (hready : o.Ready sp) (hnonneg : 0 ≤ sp) (hbefore : sp < size)
    (hafter : o.advance sp < size) : 0 ≤ slot ∧ slot < size := by
  cases o with
  | value v =>
    simp only [Touches] at h
    omega
  | call c =>
    have harity := hcount c rfl
    simp only [Ready] at hready
    simp only [Touches] at h
    omega
  | assign a =>
    simp only [Ready] at hready
    simp only [Touches] at h
    omega
  | stop => exact h.elim

end Operation

/-- The pointer after a sequence of operations. -/
def pointer (sp : Int) (operations : List (Operation α)) : Int :=
  operations.foldl (fun sp o => o.advance sp) sp

/-- Nothing moves the pointer of an empty run. -/
@[simp] theorem pointer_nil (sp : Int) : pointer sp ([] : List (Operation α)) = sp := rfl

/-- The first operation moves the pointer for the others. -/
@[simp] theorem pointer_cons (sp : Int) (o : Operation α) (rest : List (Operation α)) :
    pointer sp (o :: rest) = pointer (o.advance sp) rest := rfl

/-- The last operation moves the pointer that the others leave. -/
theorem pointer_concat (sp : Int) (operations : List (Operation α)) (o : Operation α) :
    pointer sp (operations ++ [o]) = o.advance (pointer sp operations) := by
  simp [pointer]

/-- The largest pointer of a sequence of operations, the one it starts at included. -/
def peak (sp : Int) : List (Operation α) → Int
  | [] => sp
  | o :: rest => max sp (peak (o.advance sp) rest)

/-- No run starts above its largest pointer. -/
theorem le_peak (sp : Int) (operations : List (Operation α)) : sp ≤ peak sp operations := by
  cases operations with
  | nil => exact Int.le_refl sp
  | cons o rest => exact Int.le_max_left _ _

/-- The largest pointer is the largest of the pointers after the parts a run begins with. -/
theorem isGreatest_peak (sp : Int) (operations : List (Operation α)) :
    IsGreatest {d | ∃ before, before <+: operations ∧ pointer sp before = d}
      (peak sp operations) := by
  induction operations generalizing sp with
  | nil =>
    refine ⟨⟨[], List.prefix_rfl, rfl⟩, ?_⟩
    rintro d ⟨before, hbefore, rfl⟩
    rw [List.prefix_nil.mp hbefore]
    exact Int.le_refl sp
  | cons o rest ih =>
    obtain ⟨⟨before, hbefore, hpeak⟩, hupper⟩ := ih (o.advance sp)
    constructor
    · rcases Int.le_total sp (peak (o.advance sp) rest) with hle | hle
      · refine ⟨o :: before, List.cons_prefix_cons.mpr ⟨rfl, hbefore⟩, ?_⟩
        rw [peak, Int.max_eq_right hle]
        exact hpeak
      · exact ⟨[], List.nil_prefix, (Int.max_eq_left hle).symm⟩
    · rintro d ⟨before, hbefore, rfl⟩
      rcases List.prefix_cons_iff.mp hbefore with rfl | ⟨more, rfl, hmore⟩
      · exact Int.le_max_left _ _
      · exact Int.le_trans (hupper ⟨more, hmore, rfl⟩) (Int.le_max_right _ _)

/-- What holds at every place of a list holds at its head, and at every place after it. -/
theorem forall_split_cons {β : Type*} {P : List β → β → List β → Prop} {b : β} {rest : List β} :
    (∀ before c after, b :: rest = before ++ c :: after → P before c after) ↔
      P [] b rest ∧ ∀ before c after, rest = before ++ c :: after → P (b :: before) c after := by
  constructor
  · intro h
    refine ⟨h [] b rest rfl, ?_⟩
    rintro before c after rfl
    exact h (b :: before) c after rfl
  · rintro ⟨hhead, hrest⟩ before c after heq
    cases before with
    | nil =>
      obtain ⟨rfl, rfl⟩ := List.cons.inj heq
      exact hhead
    | cons d before =>
      obtain ⟨rfl, rfl⟩ := List.cons.inj heq
      exact hrest before c after rfl

/-- The largest pointer is within a bound exactly if the first one is and every instruction leaves
the pointer within it. -/
theorem peak_le_iff {sp bound : Int} {code : List (Instruction α)} :
    peak sp (code.map Instruction.operation) ≤ bound ↔
      sp ≤ bound ∧ ∀ before i after, code = before ++ i :: after →
        i.operation.advance (pointer sp (before.map Instruction.operation)) ≤ bound := by
  induction code generalizing sp with
  | nil => simp [peak]
  | cons i rest ih =>
    rw [List.map_cons, peak, Int.max_le, ih, forall_split_cons]
    rfl

/-- The simulated depths of a sequence are its stamps if the first one is and the others are. -/
theorem simulate?_cons_iff {depth : Int} {i : Instruction α} {rest : List (Instruction α)} :
    simulate? depth (i :: rest) = some ((i :: rest).map Instruction.stackPos) ↔
      i.operation.depth? depth = some i.stackPos ∧
        simulate? i.stackPos rest = some (rest.map Instruction.stackPos) := by
  rw [simulate?, List.map_cons]
  cases hdepth : i.operation.depth? depth with
  | none => simp
  | some d =>
    constructor
    · intro h
      obtain ⟨depths, hdepths, heq⟩ := Option.map_eq_some_iff.mp h
      obtain ⟨rfl, rfl⟩ := List.cons.inj heq
      exact ⟨rfl, hdepths⟩
    · rintro ⟨hd, hrest⟩
      cases hd
      simp [hrest]

/-- The pointer of a run that always finds its operands stays in the stack. -/
theorem pointer_nonneg {depth : Int} {code : List (Instruction α)}
    (hcount : ∀ i ∈ code, i.operation.Countable) (hnonneg : 0 ≤ depth)
    (hready : ∀ before i after, code = before ++ i :: after →
      i.operation.Ready (pointer depth (before.map Instruction.operation))) :
    ∀ before after, code = before ++ after →
      0 ≤ pointer depth (before.map Instruction.operation) := by
  induction code generalizing depth with
  | nil =>
    intro before after h
    simpa [(List.append_eq_nil_iff.mp h.symm).1] using hnonneg
  | cons i rest ih =>
    obtain ⟨hi, hrest⟩ := List.forall_mem_cons.mp hcount
    obtain ⟨hhead, hmore⟩ := forall_split_cons.mp hready
    have hnext : 0 ≤ i.operation.advance depth :=
      (Operation.advance_bounds hi hhead hnonneg).1
    intro before after h
    cases before with
    | nil => exact hnonneg
    | cons j before =>
      obtain ⟨rfl, htail⟩ := List.cons.inj h
      exact ih hrest hnext hmore before after htail

namespace Stamped

variable {latest : List (Instruction α)}

/-- The last pointer of a stamped sequence is its last stamp. -/
theorem pointer_eq (h : Stamped latest) :
    pointer 0 (latest.reverse.map Instruction.operation) = topPos latest := by
  induction h with
  | nil => rfl
  | cons _ _ hdepth ih =>
    rw [List.reverse_cons, List.map_append, List.map_singleton, pointer_concat, ih]
    exact (Operation.depth?_eq_some_iff.mp hdepth).2

end Stamped

end StackCode
