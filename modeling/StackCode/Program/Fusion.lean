import StackCode.Program

/-!
# Fusion of adjacent calls

Two adjacent calls may be replaced by one routine that does the work of both. A pair of binary
operators `a b c inner outer` becomes a call of three operands; a small power in front of a
multiplication or an addition, `a b ^n outer`, becomes a call of two. The pass goes from left to
right and offers each call to the one stored before it.
-/

namespace StackCode

universe u

/-- The routine that does the work of `inner` and then `outer`. -/
structure PairRule where
  outer : String
  inner : String
  routine : Builtin

/-- The pairs of operators that are fused, in the order they are tried. -/
def pairRules : List PairRule :=
  [ ⟨"+", "+", .addAdd⟩, ⟨"*", "*", .mulMul⟩, ⟨"+", "*", .addMul⟩, ⟨"*", "+", .mulAdd⟩,
    ⟨"/", "/", .divDiv⟩, ⟨"*", "/", .mulDiv⟩, ⟨"/", "*", .divMul⟩,
    ⟨"+", "/", .addDiv⟩, ⟨"/", "+", .divAdd⟩, ⟨"-", "/", .subDiv⟩, ⟨"/", "-", .divSub⟩,
    ⟨"-", "+", .subAdd⟩ ]

/-- The routine that does the work of the routine `power` and then `outer`. -/
structure PowerRule where
  outer : String
  power : Builtin
  routine : Builtin

/-- The powers that are fused, in the order they are tried. -/
def powerRules : List PowerRule :=
  [ ⟨"*", .pow2, .pow2Mul⟩, ⟨"*", .pow3, .pow3Mul⟩, ⟨"*", .pow4, .pow4Mul⟩,
    ⟨"+", .pow2, .pow2Add⟩, ⟨"+", .pow3, .pow3Add⟩, ⟨"+", .pow4, .pow4Add⟩ ]

/-- Whether a builtin only comes from fusion. -/
def Builtin.isFused (b : Builtin) : Bool :=
  pairRules.any (·.routine == b) || powerRules.any (·.routine == b)

variable {α : Type u}

/-- Whether a call refers to a routine that only comes from fusion. -/
def Call.isFused (c : Call α) : Bool :=
  match c.routine with
  | some (.builtin b) => b.isFused
  | _ => false

/-- The call of three operands for `tail` and then `next`, with the rule it comes from. -/
def fusePair? (next tail : Call α) : Option (Call α × PairRule) :=
  if tail.arity = 2 then
    (pairRules.find? fun r => next.name == r.outer && tail.name == r.inner).map fun r =>
      (⟨r.outer ++ r.inner, some (.builtin r.routine), 3, tail.binary⟩, r)
  else none

/-- The call of two operands for the power `tail` and then `next`, with the rule it comes from. -/
def fusePower? (next tail : Call α) : Option (Call α × PowerRule) :=
  (powerRules.find? fun r => next.name == r.outer && tail.uses r.power).map fun r =>
    (⟨r.routine.name, some (.builtin r.routine), 2, tail.binary⟩, r)

/-- The call that does the work of `tail` and then `next`, which stands at `stackPos`, and the
event to report. -/
def fuse? (next tail : Call α) (stackPos : Int) : Option (Call α × Event α) :=
  if next.arity ≠ 2 then none
  else match fusePair? next tail with
    | some (c, r) => some (c, .fusedOperators r.outer r.inner stackPos)
    | none =>
      (fusePower? next tail).map fun (c, r) => (c, .fusedPower r.outer r.power.name stackPos)

/-- The instruction that takes the place of `tail` and then `next`, if they can be fused, and the
event to report. It stands where `next` stood. -/
def fuseInstructions? (next tail : Instruction α) : Option (Instruction α × Event α) :=
  match next.operation, tail.operation with
  | .call n, .call t =>
    if n.binary || t.binary then none
    else (fuse? n t next.stackPos).map fun (c, event) => (⟨.call c, next.stackPos⟩, event)
  | _, _ => none

/-- Stores one more instruction behind the most recent one, or fuses the two. -/
def fuseOnto : List (Instruction α) → Instruction α → List (Instruction α)
  | [], next => [next]
  | tail :: rest, next =>
    match fuseInstructions? next tail with
    | some (fused, _) => fused :: rest
    | none => next :: tail :: rest

/-- The events of storing one more instruction. -/
def fusionEvent : List (Instruction α) → Instruction α → List (Event α)
  | [], _ => []
  | tail :: _, next => ((fuseInstructions? next tail).map Prod.snd).toList

/-- The events of fusing a sequence onto the instructions before it. -/
def fusionEvents (before : List (Instruction α)) : List (Instruction α) → List (Event α)
  | [] => []
  | next :: rest => fusionEvent before next ++ fusionEvents (fuseOnto before next) rest

/-- Runs the fusion pass, which does nothing if the optimizer is off. -/
def Program.substitute (p : Program α) : Step α :=
  if p.config.optimizer then
    { program := { p with latest := p.code.foldl fuseOnto [] }, events := fusionEvents [] p.code }
  else { program := p }

end StackCode
