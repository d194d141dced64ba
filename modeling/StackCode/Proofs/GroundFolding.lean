import StackCode.Proofs.AffineFolding
import StackCode.Proofs.Uninterpreted

/-!
# Expressions without variables

While an expression of numbers and calls is pushed with constant folding on, the code is the stack
of an evaluation: one literal for each number on it, at the depth of that number. A number adds one
literal, and a call finds literals only, so it is computed and its result takes the place of the
first of them. Constant folding is tried before the linear rules, so these never apply.

One number is left on the stack of an accepted expression, and one literal in its code. No law of
the arithmetic is used but that zero tests equal to itself.
-/

namespace StackCode

universe u

variable {α : Type u}

/-- A number, or a call with one to nineteen operands. -/
def Token.IsGround : Token α → Prop
  | .literal _ => True
  | .call _ arity => 1 ≤ arity ∧ arity ≤ 19
  | .slot .. | .assign .. => False

variable [Arithmetic α]

/-- The code that pushes the numbers of a stack, both with the most recent first. -/
def literalCode : List α → List (Instruction α)
  | [] => []
  | x :: below => ⟨.value (.literal x), below.length + 1⟩ :: literalCode below

/-- The code of a stack without its top is what is left of its code. -/
theorem drop_literalCode (n : Nat) (stack : List α) :
    (literalCode stack).drop n = literalCode (stack.drop n) := by
  induction stack generalizing n with
  | nil => simp [literalCode]
  | cons x below ih =>
    cases n with
    | zero => rfl
    | succ n => simp only [literalCode, List.drop_succ_cons, ih]

/-- Numbers on top of a stack are found as literal operands, in the order they were pushed. -/
theorem literalOperands?_literalCode (hzero : Arithmetic.isZero (Arithmetic.zero : α) = true)
    {n : Nat} {stack : List α} (hle : n ≤ stack.length) :
    literalOperands? n (literalCode stack) = some (stack.take n).reverse := by
  induction n generalizing stack with
  | zero => rfl
  | succ n ih =>
    obtain ⟨x, below, rfl⟩ := List.exists_cons_of_length_pos (Nat.lt_of_lt_of_le n.succ_pos hle)
    have hconstant : (Value.literal x).isConstant = true := hzero
    rw [literalCode, literalOperands?, if_pos hconstant, ih (Nat.le_of_succ_le_succ hle)]
    simp [Value.literal]

namespace Program

/-- The code of a program is that of a stack of numbers. -/
structure HoldsStack (p : Program α) (stack : List α) : Prop where
  latest : p.latest = literalCode stack
  stackPos : p.stackPos = stack.length

variable {p : Program α} {stack : List α}

/-- A number that is pushed is on top of the stack. -/
theorem HoldsStack.pushValue (h : p.HoldsStack stack) (hsteady : p.IsSteady) (x : α) :
    (p.pushValue (.literal x)).HoldsStack (x :: stack) := by
  rw [pushValue_eq hsteady]
  constructor
  · simp only [stored, h.latest, h.stackPos, literalCode]
  · simp only [stored, h.stackPos, List.length_cons, Nat.cast_add, Nat.cast_one]

/-- A call on numbers is computed, and its result takes their place on the stack. -/
theorem HoldsStack.pushCall (hzero : Arithmetic.isZero (Arithmetic.zero : α) = true)
    {operands below : List α} (h : p.HoldsStack (operands.reverse ++ below))
    (hfolds : p.config.FoldsLiterals) {c : Call α} {r : Routine α} (hroutine : c.routine = some r)
    (harity : c.arity = operands.length) (hpos : 0 < operands.length)
    (hslots : operands.length < foldSlots) :
    (p.pushCall c).program.HoldsStack (r.onLiterals (p.draws 0) operands :: below) := by
  have hlength : (operands.reverse ++ below).length = operands.length + below.length := by simp
  have hoperands : literalOperands? operands.length p.latest = some operands := by
    rw [h.latest, literalOperands?_literalCode hzero (by omega), List.take_left' (by simp),
      List.reverse_reverse]
  -- The first operand is the deepest of them, right above what is below all of them.
  obtain ⟨x, hdrop⟩ : ∃ x, (operands.reverse ++ below).drop (operands.length - 1) = x :: below := by
    rw [List.drop_eq_getElem_cons (by omega), Nat.sub_add_cancel hpos, List.drop_left' (by simp)]
    exact ⟨_, rfl⟩
  have hfirst : p.latest.drop (operands.length - 1) =
      ⟨.value (.literal x), below.length + 1⟩ :: literalCode below := by
    rw [h.latest, drop_literalCode, hdrop, literalCode]
  have hfold : p.foldConstant? c =
      some ((p.afterDraw r).rewound
          (⟨.value (.literal (r.onLiterals (p.draws 0) operands)), below.length + 1⟩ ::
            literalCode below),
        .foldedConstant c.name (r.onLiterals (p.draws 0) operands)) := by
    have hcount : ¬(operands.length = 0 ∨ foldSlots ≤ operands.length) := by omega
    simp only [foldConstant?, harity, Int.toNat_natCast, if_neg hcount, hroutine, hoperands, hfirst]
  have hroom : c.arity ≤ p.stackPos := by
    rw [harity, h.stackPos, hlength]
    omega
  rw [Program.pushCall, pushCallWith_eq (by omega) hroom, if_pos hfolds.1, fold, if_pos hfolds.2,
    hfold]
  exact ⟨rfl, rfl⟩

end Program

namespace Assembler

variable {p : Program α} {stack : List α}

/-- Pushing a number or a call does to the code what evaluating it does to the stack. -/
theorem pushToken_ground (hzero : Arithmetic.isZero (Arithmetic.zero : α) = true)
    (h : p.HoldsStack stack) (hbooked : p.Booked) (hfolds : p.config.FoldsLiterals) {t : Token α}
    (hvalid : t.Valid) (hground : t.IsGround) {d : Int}
    (hdepth : t.operation.depth? p.stackPos = some d) :
    ∃ q next, (pushToken p t).2 = .ok q ∧ q.HoldsStack next ∧
      ∀ store draws rest, Machine.run ⟨stack, store, draws⟩ (t.operation :: rest) =
        Machine.run ⟨next, store, draws⟩ rest := by
  cases t with
  | literal x =>
    refine ⟨_, x :: stack, rfl, h.pushValue hbooked.isSteady x, fun store draws rest => ?_⟩
    exact Machine.run_value _ (Value.literal_eval hzero x store) rest
  | call entry arity =>
    obtain ⟨hone, hnineteen⟩ := hground
    have hle : (arity : Int) ≤ p.stackPos := (Operation.depth?_call_eq_some.mp hdepth).1
    have hroom : arity ≤ stack.length := by
      rw [h.stackPos] at hle
      exact Int.ofNat_le.mp hle
    have hlength : (stack.take arity).reverse.length = arity := by
      rw [List.length_reverse, List.length_take_of_le hroom]
    have hstack : stack = (stack.take arity).reverse.reverse ++ stack.drop arity := by
      rw [List.reverse_reverse, List.take_append_drop]
    obtain ⟨r, hroutine, htakes⟩ := (CatalogEntry.call_sound (α := α) hvalid).takes
    have harity : (entry.call arity : Call α).arity = (stack.take arity).reverse.length := by
      rw [hlength]
      rfl
    rw [harity] at htakes
    have happly (draw : α) := r.apply_eq_onLiterals htakes (by omega) draw (p.draws 0)
    rw [hstack] at h
    refine ⟨_, r.onLiterals (p.draws 0) (stack.take arity).reverse :: stack.drop arity,
      pushToken_call_eq hbooked hvalid hle,
      h.pushCall hzero hfolds hroutine harity (by omega) (by rw [hlength, foldSlots]; omega),
      fun store draws rest => ?_⟩
    exact Machine.run_call ⟨stack, store, draws⟩ _ hroutine harity (happly (draws 0)).1
      (happly (draws 0)).2 hstack rest
  | slot name source => exact absurd hground id
  | assign name target => exact absurd hground id

/-- Pushing numbers and calls does to the code what evaluating them does to the stack. -/
theorem pushTokens_ground (hzero : Arithmetic.isZero (Arithmetic.zero : α) = true)
    {tokens : List (Token α)} (hvalid : ∀ t ∈ tokens, t.Valid) (hground : ∀ t ∈ tokens, t.IsGround)
    (h : p.HoldsStack stack) (hbooked : p.Booked) (hfolds : p.config.FoldsLiterals) {d : Int}
    (hdepth : recognize? p.stackPos tokens = some d) :
    ∃ q next, pushTokens p tokens = .ok q ∧ q.HoldsStack next ∧ q.stackPos = d ∧
      ∀ store draws, Machine.run ⟨stack, store, draws⟩ (tokens.map Token.operation) =
        .ok ⟨next, store, draws⟩ := by
  induction tokens generalizing p stack with
  | nil => exact ⟨p, stack, rfl, h, Option.some.inj hdepth, fun _ _ => rfl⟩
  | cons t rest ih =>
    obtain ⟨hthis, hrest⟩ := List.forall_mem_cons.mp hvalid
    obtain ⟨hfirst, hothers⟩ := List.forall_mem_cons.mp hground
    obtain ⟨e, he, hafter⟩ := Option.bind_eq_some_iff.mp hdepth
    obtain ⟨q, mid, hq, hmid, hstep⟩ :=
      pushToken_ground hzero h hbooked hfolds hthis hfirst he
    have hpushed := pushToken_pushed hbooked hthis hq
    have hmoved : q.stackPos = e :=
      Option.some.inj ((hpushed.depth?_eq hbooked hthis).symm.trans he)
    obtain ⟨r, next, hr, hnext, hend, hrun⟩ := ih hrest hothers hmid (hpushed.booked hbooked)
      (hpushed.config_eq ▸ hfolds) (hmoved ▸ hafter)
    refine ⟨r, next, ?_, hnext, hend, fun store draws => ?_⟩
    · rw [pushTokens_cons, hq]
      exact hr
    · rw [List.map_cons, hstep]
      exact hrun store draws

end Assembler

/-- Constant folding is complete on expressions without variables. If an accepted expression has
only numbers and calls with one to nineteen operands, then with constant folding on the program is
one literal and the end, both at depth one, with the selector zero. The literal is what evaluating
the tokens in turn leaves on the stack, from any slots and draws: each routine is applied to its
operands in the order they were pushed. Linear folding makes no difference, and no law of the
arithmetic is used but that zero tests equal to itself. -/
theorem ground_expressions_fold (hzero : Arithmetic.isZero (Arithmetic.zero : α) = true)
    (a : Assembler α) (hoptimizer : a.config.optimizer = true)
    (hconstant : a.config.constantFolding = true) (source : String) (p : Program α)
    (hok : (a.assemble source).result = .ok p) (tokens : List (Token α))
    (hreads : a.Reads (a.tokens source) tokens) (hground : ∀ t ∈ tokens, t.IsGround) :
    ∃ x, p.code = [⟨.value (.literal x), 1⟩, ⟨.stop, 1⟩] ∧ p.engineId = 0 ∧
      ∀ (store : Slot → α) (draws : Nat → α),
        Machine.run ⟨[], store, draws⟩ (tokens.map Token.operation) = .ok ⟨[x], store, draws⟩ := by
  obtain ⟨hblank, _, -, hothers, hdepth, -, -, -⟩ := Assembler.assemble_pushed hok
  rw [← hreads.unique hothers] at hdepth
  have hstart : a.start.HoldsStack [] := ⟨rfl, rfl⟩
  obtain ⟨q, stack, hq, hstack, hone, hrun⟩ := Assembler.pushTokens_ground hzero hreads.valid
    hground hstart (.start a.config a.draws) ⟨hoptimizer, hconstant⟩ hdepth
  have hheight : stack.length = 1 := Int.ofNat_inj.mp (hstack.stackPos.symm.trans hone)
  obtain ⟨x, rfl⟩ := List.length_eq_one_iff.mp hheight
  have hsealed := Assembler.assemble_eq hblank rfl (Assembler.pushAll_eq hreads 0 hq) hone
  rw [hok] at hsealed
  cases hsealed
  obtain ⟨hcode, hengine⟩ := Program.finalize_value hstack.latest hone
  exact ⟨x, hcode, hengine, hrun⟩

/-- The tokens of an expression of fixed and variadic calls, `max(2, 0, sin(2)) - 2 / 2`. -/
def groundTokens : List (Token SymbolicTerm) :=
  [ .literal (.number 2), .literal (.number 0), .literal (.number 2),
    .call { name := "sin", doc := "Sine in radians", arity := some 1, routine := .sin } 1,
    .call { name := "max", doc := "Largest operand", arity := none, routine := .max } 3,
    .literal (.number 2), .literal (.number 2),
    .call { name := "/", doc := "Division", arity := some 2, binary := true, routine := .div } 2,
    .call { name := "-", doc := "Subtraction", arity := some 2, binary := true, routine := .sub } 2 ]

/-- Over terms and with all rules on, the expression is one literal. -/
theorem ground_expressions_fold_symbolic :
    ∃ p x, (symbolicAssembler.assemble "2,0,2,sin,max:3,2,2,/,-").result = .ok p ∧
      p.code = [⟨.value (.literal x), 1⟩, ⟨.stop, 1⟩] ∧ p.engineId = 0 ∧
      ∀ (store : Slot → SymbolicTerm) (draws : Nat → SymbolicTerm),
        Machine.run ⟨[], store, draws⟩ (groundTokens.map Token.operation) =
          .ok ⟨[x], store, draws⟩ := by
  have htexts : symbolicAssembler.tokens "2,0,2,sin,max:3,2,2,/,-" =
      ["2", "0", "2", "sin", "max:3", "2", "2", "/", "-"] := by cbv
  have hreads : symbolicAssembler.Reads (symbolicAssembler.tokens "2,0,2,sin,max:3,2,2,/,-")
      groundTokens := by
    rw [htexts]
    exact .cons rfl <| .cons rfl <| .cons rfl <| .cons rfl <| .cons rfl <| .cons rfl <|
      .cons rfl <| .cons rfl <| .cons rfl .nil
  obtain ⟨q, -, hok⟩ := Assembler.assemble_accepts (by cbv) hreads rfl
  obtain ⟨x, hresult⟩ := ground_expressions_fold rfl symbolicAssembler rfl rfl _ _ hok groundTokens
    hreads (by simp [groundTokens, Token.IsGround])
  exact ⟨_, x, hok, hresult⟩

end StackCode
