import StackCode.Program

/-!
# Folding while pushing

A call that is about to be pushed may be absorbed by the values in front of it. A call on literals
becomes its result. With linear folding, the sum of two values of at most one variable and the
product of a value and a literal become one value, and a power with a literal exponent from 2 to 5
becomes the routine for that exponent.

A subtraction of a value is an addition of the negated value. If an addition stands directly in
front of that value, then `x … + v -` becomes `x … -v + +`: the value is added first, and the
addition in front is pushed again after it.
-/

namespace StackCode

universe u

/-- What became of a call about to be pushed. -/
inductive Folding (α : Type u) where
  /-- The call is part of the values in front of it. -/
  | absorbed (program : Program α) (events : List (Event α))
  /-- The call, perhaps rewritten, still has to be stored. -/
  | kept (program : Program α) (call : Call α) (events : List (Event α))
  /-- Folding met a broken precondition. -/
  | refused (program : Program α) (events : List (Event α)) (misuse : Misuse)

/-- Puts earlier events in front. -/
def Folding.after {α : Type u} (earlier : List (Event α)) : Folding α → Folding α
  | .absorbed p events => .absorbed p (earlier ++ events)
  | .kept p c events => .kept p c (earlier ++ events)
  | .refused p events m => .refused p (earlier ++ events) m

/-- The number of slots in the buffer for computing calls; calls with as many operands are kept. -/
def foldSlots : Nat := 20

variable {α : Type u} [Arithmetic α]

/-- The offsets of the `n` most recent instructions in push order, if all are literals. -/
def literalOperands? : (n : Nat) → List (Instruction α) → Option (List α)
  | 0, _ => some []
  | n + 1, ⟨.value v, _⟩ :: rest =>
    if v.isConstant then (literalOperands? n rest).map (· ++ [v.offset]) else none
  | _ + 1, _ => none

/-- The result of a routine on literals, computed in a buffer of `foldSlots` slots. -/
def Routine.onLiterals (r : Routine α) (draw : α) (xs : List α) : α :=
  let buffer := xs ++ List.replicate (foldSlots - xs.length) Arithmetic.zero
  (r.call draw xs.length buffer).slots.headD Arithmetic.zero

namespace Program

/-- The program without the draw that a routine has used. -/
def afterDraw (p : Program α) (r : Routine α) : Program α :=
  if r.rule.isDraw then { p with draws := fun n => p.draws (n + 1) } else p

/-- Computes a call on literals. The result takes the place of the first operand. -/
def foldConstant? (p : Program α) (c : Call α) : Option (Program α × Event α) :=
  let n := c.arity.toNat
  if n = 0 ∨ foldSlots ≤ n then none
  else match c.routine, literalOperands? n p.latest, p.latest.drop (n - 1) with
    | some r, some xs, first :: rest =>
      let result := r.onLiterals (p.draws 0) xs
      some ((p.afterDraw r).rewound (⟨.value (.literal result), first.stackPos⟩ :: rest),
        .foldedConstant c.name result)
    | _, _, _ => none

/-- Merges the two values in front of an addition. -/
def foldSum (p : Program α) (c : Call α) : Folding α :=
  match p.latest with
  | ⟨.value b, _⟩ :: ⟨.value a, pos⟩ :: rest =>
    if !a.isConstant && !b.isConstant && a.source != b.source then .kept p c []
    else .absorbed (p.rewound (⟨.value (a.plus b), pos⟩ :: rest)) [.foldedSum c.name (a.plus b)]
  | _ => .kept p c []

/-- Scales the value in front of a multiplication by the literal beside it. -/
def foldProduct (p : Program α) (c : Call α) : Folding α :=
  match p.latest with
  | ⟨.value b, _⟩ :: ⟨.value a, pos⟩ :: rest =>
    let absorbed (v : Value α) : Folding α :=
      .absorbed (p.rewound (⟨.value v, pos⟩ :: rest)) [.foldedProduct v]
    match a.isConstant, b.isConstant with
    | false, true => absorbed (a.timesRight b.offset)
    | true, false => absorbed (b.timesRight a.offset)
    | _, _ => .kept p c []
  | _ => .kept p c []

/-- Replaces a power whose exponent is a literal from 2 to 5. -/
def foldPower (p : Program α) (c : Call α) : Folding α :=
  match p.latest with
  | ⟨.value top, _⟩ :: below :: rest =>
    if !top.isConstant then .kept p c []
    else match Arithmetic.smallExponent? top.offset with
      | none => .kept p c []
      | some n =>
        match Builtin.ofExponent? n with
        | none => .kept p c []
        | some b =>
          let step := (p.rewound (below :: rest)).appendRaw
            (.call ⟨s!"^{n}", some (.builtin b), 1, false⟩)
          match step.misuse with
          | none => .absorbed step.program [.replacedPower n]
          | some m => .refused step.program [.replacedPower n] m
  | _ => .kept p c []

/-- Folds a subtraction of a value; `push` pushes the addition in front of it again. -/
def foldDifference (push : Program α → Call α → Step α) (p : Program α) (c : Call α) : Folding α :=
  match p.latest with
  | ⟨.value v, pos⟩ :: rest =>
    let sum := { c with name := "+", routine := some (.builtin .add) }
    let negated := { p with latest := ⟨.value v.negated, pos⟩ :: rest }
    match rest with
    | ⟨.call front, _⟩ :: below =>
      if front.name = "+" ∧ front.arity = 2 then
        let step := push ((p.rewound below).pushValue v.negated) { front with binary := true }
        match step.misuse with
        | none => (step.program.foldSum sum).after step.events
        | some m => .refused step.program step.events m
      else negated.foldSum sum
    | _ => negated.foldSum sum
  | _ => .kept p c []

/-- Folds a call about to be pushed; `difference` is the rule for subtractions. -/
def fold (difference : Program α → Call α → Folding α) (p : Program α) (c : Call α) : Folding α :=
  match (if p.config.constantFolding then p.foldConstant? c else none) with
  | some (q, event) => .absorbed q [event]
  | none =>
    if p.config.linearFolding && c.binary then
      match c.name with
      | "+" => p.foldSum c
      | "-" => difference p c
      | "*" => p.foldProduct c
      | "^" => p.foldPower c
      | _ => .kept p c []
    else .kept p c []

/-- Stores a call, which takes its operands and leaves one result. -/
def storeCall (p : Program α) (c : Call α) : Step α :=
  (p.moveTo (p.stackPos - c.arity + 1)).appendRaw (.call { c with binary := false })

/-- Pushes a call, folding it by the given rule first. -/
def pushCallWith (rule : Program α → Call α → Folding α) (p : Program α) (c : Call α) : Step α :=
  if c.arity < 0 then { program := p, misuse := some (.negativeArity c.name c.arity) }
  else if p.stackPos < c.arity then
    { program := p, misuse := some (.missingOperands c.name c.arity p.stackPos) }
  else match (if p.config.optimizer then rule p c else .kept p c []) with
    | .absorbed q events => { program := q, events }
    | .refused q events m => { program := q, events, misuse := some m }
    | .kept q c events =>
      let step := q.storeCall c
      { step with events := events ++ step.events }

/-- Pushes an addition again in front of which a value was taken out. Nothing is subtracted here,
so no further call is taken out. -/
def pushAgain : Program α → Call α → Step α := pushCallWith (fold foldSum)

/-- Pushes a call. With a folding rule on, the values in front of it may absorb it. -/
def pushCall : Program α → Call α → Step α := pushCallWith (fold (foldDifference pushAgain))

end Program

end StackCode
