import StackCode.Program

/-!
# Stamps and simulated depth

A sequence of instructions is simulated by its stack depth alone: a value adds a slot, a call
takes its operands and leaves a result, an assignment takes two slots and leaves one. The stamps
of a sequence are right if each of them is the simulated depth after its instruction.

Sequences are kept most recent first, so the depth before an instruction is the stamp of the one
below it. Two properties of stamps are tracked. `Stamped` is the exact one. `Steady` only bounds
how fast stamps grow, and it also holds where an instruction was stored without its effect on the
depth.
-/

namespace StackCode

universe u

variable {α : Type u}

/-- The depth after an operation, absent if the stack holds too few operands. -/
def Operation.depth? (depth : Int) : Operation α → Option Int
  | .value _ => some (depth + 1)
  | .call c => if c.arity ≤ depth then some (depth - c.arity + 1) else none
  | .assign _ => if 2 ≤ depth then some (depth - 1) else none
  | .stop => some depth

/-- A call has a depth after it if it finds its operands. -/
theorem Operation.depth?_call_eq_some {c : Call α} {depth d : Int} :
    (Operation.call c).depth? depth = some d ↔ c.arity ≤ depth ∧ d = depth - c.arity + 1 := by
  simp only [depth?, Option.ite_none_right_eq_some, Option.some.injEq]
  exact and_congr Iff.rfl eq_comm

/-- An assignment has a depth after it if it finds its destination and its value. -/
theorem Operation.depth?_assign_eq_some {a : Assign} {depth d : Int} :
    (Operation.assign a : Operation α).depth? depth = some d ↔ 2 ≤ depth ∧ d = depth - 1 := by
  simp only [depth?, Option.ite_none_right_eq_some, Option.some.injEq]
  exact and_congr Iff.rfl eq_comm

/-- The depth after each instruction of a sequence, absent if one of them underflows. -/
def simulate? (depth : Int) : List (Instruction α) → Option (List Int)
  | [] => some []
  | i :: rest =>
    match i.operation.depth? depth with
    | none => none
    | some d => (simulate? d rest).map (d :: ·)

/-- Simulating one more instruction adds its depth at the end. -/
theorem simulate?_concat (depth : Int) (code : List (Instruction α)) (i : Instruction α) :
    simulate? depth (code ++ [i]) = (simulate? depth code).bind fun depths =>
      (i.operation.depth? (depths.getLastD depth)).map fun e => depths ++ [e] := by
  induction code generalizing depth with
  | nil =>
    simp only [List.nil_append, simulate?, Option.bind_some, List.getLastD_nil]
    cases i.operation.depth? depth <;> rfl
  | cons j rest ih =>
    simp only [List.cons_append, simulate?]
    cases j.operation.depth? depth with
    | none => rfl
    | some d =>
      simp only [ih d]
      cases simulate? d rest with
      | none => rfl
      | some depths =>
        simp only [Option.bind_some, Option.map_some, List.getLastD_cons]
        cases i.operation.depth? (depths.getLastD d) <;> rfl

/-- The last stamp in execution order is the one of the most recent instruction. -/
theorem getLastD_stamps (latest : List (Instruction α)) :
    (latest.reverse.map Instruction.stackPos).getLastD 0 = topPos latest := by
  cases latest with
  | nil => rfl
  | cons i rest => simp [topPos, List.getLastD_eq_getLast?]

/-- What a program under construction may hold: no end, and no call that is still an operator or
takes a negative number of operands. -/
def Operation.Storable : Operation α → Prop
  | .call c => c.binary = false ∧ 0 ≤ c.arity
  | .stop => False
  | _ => True

/-- Every stamp is the simulated depth after its instruction. -/
inductive Stamped : List (Instruction α) → Prop
  | nil : Stamped []
  | cons {i : Instruction α} {rest : List (Instruction α)} (hrest : Stamped rest)
      (hstorable : i.operation.Storable)
      (hdepth : i.operation.depth? (topPos rest) = some i.stackPos) : Stamped (i :: rest)

namespace Stamped

variable {i : Instruction α} {rest latest : List (Instruction α)}

/-- A value stands one slot above what is below it. -/
@[simp] theorem value_cons_iff {v : Value α} {d : Int} :
    Stamped (⟨.value v, d⟩ :: rest) ↔ Stamped rest ∧ d = topPos rest + 1 := by
  constructor
  · rintro (_ | ⟨hrest, _, hdepth⟩)
    exact ⟨hrest, (Option.some.inj hdepth).symm⟩
  · rintro ⟨hrest, rfl⟩
    exact .cons hrest trivial rfl

/-- A call finds its operands and puts its result in place of the first of them. -/
@[simp] theorem call_cons_iff {c : Call α} {d : Int} :
    Stamped (⟨.call c, d⟩ :: rest) ↔ Stamped rest ∧ c.binary = false ∧ 0 ≤ c.arity ∧
      c.arity ≤ topPos rest ∧ d = topPos rest - c.arity + 1 := by
  constructor
  · rintro (_ | ⟨hrest, hstorable, hdepth⟩)
    exact ⟨hrest, hstorable.1, hstorable.2, Operation.depth?_call_eq_some.mp hdepth⟩
  · rintro ⟨hrest, hbinary, harity, hle, rfl⟩
    exact .cons hrest ⟨hbinary, harity⟩ (if_pos hle)

/-- An assignment finds its destination and its value, and leaves the value. -/
@[simp] theorem assign_cons_iff {a : Assign} {d : Int} :
    Stamped (⟨.assign a, d⟩ :: rest) ↔ Stamped rest ∧ 2 ≤ topPos rest ∧ d = topPos rest - 1 := by
  constructor
  · rintro (_ | ⟨hrest, _, hdepth⟩)
    exact ⟨hrest, Operation.depth?_assign_eq_some.mp hdepth⟩
  · rintro ⟨hrest, hle, rfl⟩
    exact .cons hrest trivial (if_pos hle)

/-- No end is stamped in a program under construction. -/
@[simp] theorem stop_cons_iff {d : Int} :
    Stamped ((⟨.stop, d⟩ : Instruction α) :: rest) ↔ False := by
  constructor
  · rintro (_ | ⟨_, hstorable, _⟩)
    exact hstorable
  · exact False.elim

/-- Dropping the most recent instruction keeps the stamps right. -/
theorem tail (h : Stamped (i :: rest)) : Stamped rest := by
  cases h with
  | cons hrest _ _ => exact hrest

/-- Dropping the most recent instructions keeps the stamps right. -/
theorem drop (h : Stamped latest) (n : Nat) : Stamped (latest.drop n) := by
  induction n generalizing latest with
  | zero => exact h
  | succ n ih =>
    cases h with
    | nil => exact .nil
    | cons hrest _ _ => exact ih hrest

/-- Only storable operations are stamped. -/
theorem storable (h : Stamped latest) : ∀ j ∈ latest, j.operation.Storable := by
  induction h with
  | nil => simp
  | cons _ hstorable _ ih =>
    intro j hj
    rcases List.mem_cons.mp hj with rfl | hj
    · exact hstorable
    · exact ih j hj

/-- No depth is negative. -/
theorem topPos_nonneg (h : Stamped latest) : 0 ≤ topPos latest := by
  induction h with
  | nil => exact Int.le_refl 0
  | @cons i rest hrest hstorable hdepth ih =>
    obtain ⟨operation, d⟩ := i
    change 0 ≤ d
    have h := Stamped.cons hrest hstorable hdepth
    cases operation with
    | value v => rw [value_cons_iff] at h; omega
    | call c => rw [call_cons_iff] at h; omega
    | assign a => rw [assign_cons_iff] at h; omega
    | stop => exact (stop_cons_iff.mp h).elim

/-- Every instruction leaves at least one slot. -/
theorem one_le_stackPos (h : Stamped (i :: rest)) : 1 ≤ i.stackPos := by
  obtain ⟨operation, d⟩ := i
  have hbelow := h.tail.topPos_nonneg
  change 1 ≤ d
  cases operation with
  | value v => rw [value_cons_iff] at h; omega
  | call c => rw [call_cons_iff] at h; omega
  | assign a => rw [assign_cons_iff] at h; omega
  | stop => exact (stop_cons_iff.mp h).elim

/-- The simulated depths of a stamped sequence are its stamps. -/
theorem simulate?_reverse (h : Stamped latest) :
    simulate? 0 latest.reverse = some (latest.reverse.map Instruction.stackPos) := by
  induction h with
  | nil => rfl
  | @cons i rest hrest hstorable hdepth ih =>
    rw [List.reverse_cons, simulate?_concat, ih, Option.bind_some, getLastD_stamps, hdepth]
    simp

/-- Stamps that are the simulated depths are right, if only storable operations are stamped. -/
theorem of_simulate? (hstorable : ∀ j ∈ latest, j.operation.Storable)
    (h : simulate? 0 latest.reverse = some (latest.reverse.map Instruction.stackPos)) :
    Stamped latest := by
  induction latest with
  | nil => exact .nil
  | cons i rest ih =>
    obtain ⟨hi, hrest⟩ := List.forall_mem_cons.mp hstorable
    rw [List.reverse_cons, simulate?_concat] at h
    obtain ⟨depths, hdepths, hlast⟩ := Option.bind_eq_some_iff.mp h
    obtain ⟨e, he, heq⟩ := Option.map_eq_some_iff.mp hlast
    rw [List.map_append, List.map_singleton] at heq
    obtain ⟨rfl, hstamp⟩ := List.append_inj' heq rfl
    rw [getLastD_stamps, List.singleton_inj.mp hstamp] at he
    exact .cons (ih hrest hdepths) hi he

end Stamped

/-- The slots that an operation can add to the depth before it. An operator takes two operands, so
it adds none, stored with its effect or without it. -/
def Operation.growth : Operation α → Int
  | .call c => if c.arity = 2 ∧ c.name ∈ ["+", "-", "*", "/"] then 0 else 1
  | _ => 1

/-- Stamps are not negative, and none exceeds the one below it by more than its instruction can
add. -/
inductive Steady : List (Instruction α) → Prop
  | nil : Steady []
  | cons {i : Instruction α} {rest : List (Instruction α)} (hrest : Steady rest)
      (hnonneg : 0 ≤ i.stackPos) (hgrowth : i.stackPos ≤ topPos rest + i.operation.growth) :
      Steady (i :: rest)

/-- Storing an operation may always leave the depth as it is. -/
theorem Operation.growth_nonneg (o : Operation α) : 0 ≤ o.growth := by
  unfold growth
  split
  · split <;> decide
  · decide

/-- No operation adds more than one slot. -/
theorem Operation.growth_le_one (o : Operation α) : o.growth ≤ 1 := by
  unfold growth
  split
  · split <;> decide
  · decide

namespace Steady

variable {i : Instruction α} {rest latest : List (Instruction α)}

/-- Dropping the most recent instruction keeps the stamps steady. -/
theorem tail (h : Steady (i :: rest)) : Steady rest := by
  cases h with
  | cons hrest _ _ => exact hrest

/-- Dropping the most recent instructions keeps the stamps steady. -/
theorem drop (h : Steady latest) (n : Nat) : Steady (latest.drop n) := by
  induction n generalizing latest with
  | zero => exact h
  | succ n ih =>
    cases h with
    | nil => exact .nil
    | cons hrest _ _ => exact ih hrest

/-- No depth is negative. -/
theorem topPos_nonneg (h : Steady latest) : 0 ≤ topPos latest := by
  cases h with
  | nil => exact Int.le_refl 0
  | cons _ hnonneg _ => exact hnonneg

/-- No stamp is negative. -/
theorem stackPos_nonneg (h : Steady latest) : ∀ j ∈ latest, 0 ≤ j.stackPos := by
  induction h with
  | nil => simp
  | cons _ hnonneg _ ih => exact List.forall_mem_cons.mpr ⟨hnonneg, ih⟩

/-- The instructions account for the depth, at most one slot for each. -/
theorem topPos_le_length (h : Steady latest) : topPos latest ≤ latest.length := by
  induction h with
  | nil => exact Int.le_refl 0
  | @cons i rest _ _ hgrowth ih =>
    have hone := i.operation.growth_le_one
    change i.stackPos ≤ ((rest.length + 1 : Nat) : Int)
    omega

/-- A value may take the place of any instruction. -/
theorem replace_value (h : Steady (i :: rest)) (v : Value α) :
    Steady (⟨.value v, i.stackPos⟩ :: rest) := by
  cases h with
  | cons hrest hnonneg hgrowth =>
    refine .cons hrest hnonneg ?_
    exact Int.le_trans hgrowth (Int.add_le_add_left i.operation.growth_le_one _)

end Steady

/-- Right stamps are steady. -/
theorem Stamped.steady {latest : List (Instruction α)} (h : Stamped latest) : Steady latest := by
  induction h with
  | nil => exact .nil
  | @cons i rest hrest hstorable hdepth ih =>
    have h := Stamped.cons hrest hstorable hdepth
    refine .cons ih (Int.le_trans (by decide) h.one_le_stackPos) ?_
    obtain ⟨operation, d⟩ := i
    change d ≤ topPos rest + operation.growth
    cases operation with
    | value v => rw [value_cons_iff] at h; exact Int.le_of_eq h.2
    | call c =>
      rw [call_cons_iff] at h
      simp only [Operation.growth]
      split
      · rename_i hoperator
        have := hoperator.1
        omega
      · omega
    | assign a =>
      rw [assign_cons_iff] at h
      change d ≤ topPos rest + 1
      omega
    | stop => exact (stop_cons_iff.mp h).elim

end StackCode
