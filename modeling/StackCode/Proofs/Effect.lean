import StackCode.Evaluation

/-!
# Effects of operations

Evaluation stops at an end instruction, so the effect of a piece of code is compared in front of
any code that may follow it. Two pieces have the same effect if every machine runs them alike,
whatever comes next: to the same stack, slots and draws, or short by the same obstacle. Pieces with
the same effect can be exchanged anywhere in a program.

A call either finds its operands and gets the result of its rule, or underflows. For the rules of
one, two and three operands this is a plain case distinction on the stack.
-/

namespace StackCode

universe u

variable {α : Type u}

/-- The operations of one more instruction. -/
@[simp] theorem operationsOf_cons (i : Instruction α) (rest : List (Instruction α)) :
    operationsOf (i :: rest) = operationsOf rest ++ [i.operation] := by
  simp [operationsOf]

/-- The operations of instructions in front of others come later. -/
theorem operationsOf_append (latest earlier : List (Instruction α)) :
    operationsOf (latest ++ earlier) = operationsOf earlier ++ operationsOf latest := by
  simp [operationsOf]

variable [Arithmetic α]

namespace Machine

variable {m : Machine α} {c : Call α}

/-- Nothing is carried out after an end instruction. -/
@[simp] theorem run_stop (m : Machine α) (rest : List (Operation α)) :
    m.run (.stop :: rest) = .ok m := rfl

/-- An operation other than an end is carried out before the rest. -/
theorem run_cons (m : Machine α) {o : Operation α} (ho : o ≠ .stop) (rest : List (Operation α)) :
    m.run (o :: rest) = m.step o >>= fun next => next.run rest := by
  rw [run]
  · cases m.step o <;> rfl
  · exact ho

/-- A value is pushed. -/
theorem run_value (m : Machine α) {v : Value α} {x : α} (heval : v.eval m.store = .ok x)
    (rest : List (Operation α)) : m.run (.value v :: rest) = (m.push x).run rest := by
  rw [run_cons m (by simp), step, heval]
  rfl

/-- A call that finds its operands gets the result of its routine. -/
theorem call_ok {r : Routine α} {operands below : List α} {x : α} (hroutine : c.routine = some r)
    (harity : c.arity = operands.length) (hstack : m.stack = operands.reverse ++ below)
    (happly : r.apply (m.draws 0) operands = .ok x) :
    m.call c = .ok ({ m.afterDraw r with stack := below }.push x) := by
  have htake : takeOperands c.arity m.stack = .ok (operands, below) := by
    have hlength : ¬(m.stack.length : Int) < c.arity := by
      rw [hstack, harity, List.length_append, List.length_reverse]
      omega
    rw [takeOperands, if_neg (by omega), if_neg hlength, hstack, harity, Int.toNat_natCast,
      List.take_left' (by simp), List.drop_left' (by simp), List.reverse_reverse]
  simp only [call, htake, hroutine, happly]

/-- A call that does not find its operands underflows. -/
theorem call_underflow (harity : 0 ≤ c.arity) (hfew : (m.stack.length : Int) < c.arity) :
    m.call c = .error .underflow := by
  have htake : takeOperands c.arity m.stack = .error .underflow := by
    rw [takeOperands, if_neg (Int.not_lt.mpr harity), if_pos hfew]
  rw [call, htake]

/-- Whatever code goes on alike from every machine also does after one more operation. -/
theorem run_congr {xs ys : List (Operation α)} (h : ∀ m : Machine α, m.run xs = m.run ys)
    (m : Machine α) (o : Operation α) : m.run (o :: xs) = m.run (o :: ys) := by
  by_cases ho : o = .stop
  · rw [ho, run_stop, run_stop]
  · rw [run_cons m ho, run_cons m ho]
    congr
    funext next
    exact h next

end Machine

/-- Two pieces of code that every machine runs alike, whatever code follows. -/
def SameEffect (xs ys : List (Operation α)) : Prop :=
  ∀ (m : Machine α) (rest : List (Operation α)), m.run (xs ++ rest) = m.run (ys ++ rest)

namespace SameEffect

variable {xs ys zs : List (Operation α)}

/-- Every piece of code has its own effect. -/
theorem refl (xs : List (Operation α)) : SameEffect xs xs := fun _ _ => rfl

/-- Having the same effect goes both ways. -/
theorem symm (h : SameEffect xs ys) : SameEffect ys xs := fun m rest => (h m rest).symm

/-- Having the same effect goes through a third piece of code. -/
theorem trans (h : SameEffect xs ys) (h' : SameEffect ys zs) : SameEffect xs zs :=
  fun m rest => (h m rest).trans (h' m rest)

/-- Code may follow. -/
theorem append_right (h : SameEffect xs ys) (after : List (Operation α)) :
    SameEffect (xs ++ after) (ys ++ after) := by
  intro m rest
  rw [List.append_assoc, List.append_assoc]
  exact h m (after ++ rest)

/-- Code may stand before. -/
theorem append_left (h : SameEffect xs ys) (before : List (Operation α)) :
    SameEffect (before ++ xs) (before ++ ys) := by
  intro m rest
  induction before generalizing m with
  | nil => exact h m rest
  | cons o before ih => exact Machine.run_congr ih m o

/-- Whole programs with the same effect evaluate alike. -/
theorem run_eq (h : SameEffect xs ys) (m : Machine α) : m.run xs = m.run ys := by
  have hnil := h m []
  rwa [List.append_nil, List.append_nil] at hnil

end SameEffect

/-- The rule of the routine that a call refers to. -/
def Call.rule? (c : Call α) : Option (Rule α) := c.routine.map Routine.rule

namespace Machine

variable {c : Call α}

/-- A call of a rule that takes no draw leaves the draws alone. -/
theorem run_call {r : Routine α} {below : List α} {x : α} (m : Machine α) (operands : List α)
    (hroutine : c.routine = some r) (harity : c.arity = operands.length)
    (hdraw : r.rule.isDraw = false) (happly : r.apply (m.draws 0) operands = .ok x)
    (hstack : m.stack = operands.reverse ++ below) (rest : List (Operation α)) :
    m.run (.call c :: rest) = { m with stack := x :: below }.run rest := by
  rw [run_cons m (by simp), step, call_ok hroutine harity hstack happly, afterDraw, hdraw]
  rfl

/-- A call that does not find its operands stops evaluation. -/
theorem run_call_underflow (m : Machine α) (harity : 0 ≤ c.arity)
    (hfew : (m.stack.length : Int) < c.arity) (rest : List (Operation α)) :
    m.run (.call c :: rest) = .error .underflow := by
  rw [run_cons m (by simp), step, call_underflow harity hfew]
  rfl

/-- A call of a rule of one operand replaces the top of the stack. -/
theorem run_unary {f : α → α} (hrule : c.rule? = some (.unary f)) (harity : c.arity = 1)
    (m : Machine α) (rest : List (Operation α)) :
    m.run (.call c :: rest) = match m.stack with
      | x :: below => { m with stack := f x :: below }.run rest
      | [] => .error .underflow := by
  obtain ⟨r, hroutine, hr⟩ := Option.map_eq_some_iff.mp hrule
  obtain ⟨stack, store, draws⟩ := m
  match stack with
  | [] => exact run_call_underflow _ (by omega) (by simp [harity]) rest
  | x :: below =>
    refine run_call _ [x] hroutine harity (by rw [hr]; rfl) ?_ rfl rest
    rw [Routine.apply, Routine.call, hr]
    rfl

/-- A call of a rule of two operands replaces them by the result. -/
theorem run_binary {f : α → α → α} (hrule : c.rule? = some (.binary f)) (harity : c.arity = 2)
    (m : Machine α) (rest : List (Operation α)) :
    m.run (.call c :: rest) = match m.stack with
      | y :: x :: below => { m with stack := f x y :: below }.run rest
      | _ => .error .underflow := by
  obtain ⟨r, hroutine, hr⟩ := Option.map_eq_some_iff.mp hrule
  obtain ⟨stack, store, draws⟩ := m
  match stack with
  | [] => exact run_call_underflow _ (by omega) (by simp [harity]) rest
  | [_] => exact run_call_underflow _ (by omega) (by simp [harity]) rest
  | y :: x :: below =>
    refine run_call _ [x, y] hroutine harity (by rw [hr]; rfl) ?_ rfl rest
    rw [Routine.apply, Routine.call, hr]
    rfl

/-- A call of a rule of three operands replaces them by the result. -/
theorem run_ternary {f : α → α → α → α} (hrule : c.rule? = some (.ternary f))
    (harity : c.arity = 3) (m : Machine α) (rest : List (Operation α)) :
    m.run (.call c :: rest) = match m.stack with
      | z :: y :: x :: below => { m with stack := f x y z :: below }.run rest
      | _ => .error .underflow := by
  obtain ⟨r, hroutine, hr⟩ := Option.map_eq_some_iff.mp hrule
  obtain ⟨stack, store, draws⟩ := m
  match stack with
  | [] => exact run_call_underflow _ (by omega) (by simp [harity]) rest
  | [_] => exact run_call_underflow _ (by omega) (by simp [harity]) rest
  | [_, _] => exact run_call_underflow _ (by omega) (by simp [harity]) rest
  | z :: y :: x :: below =>
    refine run_call _ [x, y, z] hroutine harity (by rw [hr]; rfl) ?_ rfl rest
    rw [Routine.apply, Routine.call, hr]
    rfl

end Machine

end StackCode
