import StackCode.Proofs.Steadiness

/-!
# Refused operations

A program refuses a call for its operand count, an assignment for its kind or a lack of slots, and a
removal if there is nothing to remove. A refusal leaves the program as it was.

Only a subtraction of a value could break this: it edits the program before the addition in front is
pushed again, and that addition may be refused. It is not, as long as it was stored with two operands
below it. Every addition is, unless an instruction was stored raw: calls are stored where they find
their operands, fusion makes no addition, and what is below one keeps its stamp. This holds although
fusion may leave wrong stamps on powers, and in code that goes on after an end instruction.
-/

namespace StackCode

universe u

variable {α : Type u}

/-- An addition of two operands. -/
def Operation.IsSum (o : Operation α) : Prop := ∃ c, o = .call c ∧ c.name = "+" ∧ c.arity = 2

/-- Every addition stands above two operands. -/
inductive Grounded : List (Instruction α) → Prop
  | nil : Grounded []
  | cons {i : Instruction α} {rest : List (Instruction α)} (hrest : Grounded rest)
      (hsum : i.operation.IsSum → 2 ≤ topPos rest) : Grounded (i :: rest)

namespace Grounded

variable {i : Instruction α} {rest latest : List (Instruction α)}

/-- Any other instruction may be stored anywhere. -/
theorem cons_other (h : Grounded rest) (hother : ¬i.operation.IsSum) : Grounded (i :: rest) :=
  .cons h fun hsum => absurd hsum hother

/-- Dropping the most recent instruction keeps additions above their operands. -/
theorem tail (h : Grounded (i :: rest)) : Grounded rest := by
  cases h with
  | cons hrest _ => exact hrest

/-- Dropping the most recent instructions keeps additions above their operands. -/
theorem drop (h : Grounded latest) (n : Nat) : Grounded (latest.drop n) := by
  induction n generalizing latest with
  | zero => exact h
  | succ n ih =>
    cases h with
    | nil => exact .nil
    | cons hrest _ => exact ih hrest

end Grounded

/-- A value is no addition. -/
theorem Operation.not_isSum_value (v : Value α) : ¬(Operation.value v).IsSum := by
  rintro ⟨c, hc, -⟩
  contradiction

/-- An end is no addition. -/
theorem Operation.not_isSum_stop : ¬(Operation.stop : Operation α).IsSum := by
  rintro ⟨c, hc, -⟩
  contradiction

/-- No name of a fused power is that of an addition. -/
theorem powerRules_name : ∀ r ∈ powerRules, r.routine.name ≠ "+" := by decide

/-- Fusion makes no addition. -/
theorem FusedCall.not_isSum {next tail c : Call α} (h : FusedCall next tail c) :
    ¬(Operation.call c).IsSum := by
  rintro ⟨d, ⟨⟩, hname, harity⟩
  cases h with
  | pair _ _ _ _ _ => exact absurd harity (by simp)
  | power hrule _ _ _ => exact powerRules_name _ hrule hname

/-- One more instruction keeps additions above their operands, fused or not. -/
theorem fuseOnto_grounded {before : List (Instruction α)} {next : Instruction α}
    (h : Grounded (next :: before)) : Grounded (fuseOnto before next) := by
  obtain heq | ⟨tail, rest, fused, event, rfl, hfuse, heq⟩ := fuseOnto_cases before next
  · rw [heq]
    exact h
  · rw [heq]
    obtain ⟨n, t, c, -, -, -, -, hcall, rfl⟩ := fuseInstructions?_fused hfuse
    exact h.tail.tail.cons_other hcall.not_isSum

/-- The fusion pass keeps additions above their operands. -/
theorem fusedLatest_grounded {latest : List (Instruction α)} (h : Grounded latest) :
    Grounded (fusedLatest latest) := by
  induction h with
  | nil => exact .nil
  | @cons next rest _ hsum ih =>
    rw [← topPos_fusedLatest] at hsum
    exact fuseOnto_grounded (.cons ih hsum)

namespace Program

/-- A steady program with every addition above two operands. -/
structure IsGrounded (p : Program α) : Prop extends IsSteady p where
  sums : Grounded p.latest

namespace IsGrounded

variable {p : Program α}

/-- An empty program is grounded. -/
theorem start (config : Config) (draws : Nat → α) : IsGrounded { config, draws } :=
  ⟨.start config draws, .nil⟩

/-- Pushing a value keeps the program grounded. -/
theorem pushValue (h : p.IsGrounded) (v : Value α) : (p.pushValue v).IsGrounded := by
  refine ⟨h.toIsSteady.pushValue v, ?_⟩
  rw [pushValue_eq h.toIsSteady]
  exact h.sums.cons_other (Operation.not_isSum_value v)

/-- Removing the last instruction keeps the program grounded, also when there is none. -/
theorem popLast (h : p.IsGrounded) : p.popLast.program.IsGrounded := by
  refine ⟨h.toIsSteady.popLast, ?_⟩
  unfold Program.popLast
  split
  · exact h.sums
  · rename_i i rest hlatest
    have hsums := h.sums
    rw [hlatest] at hsums
    exact hsums.tail

/-- Pushing an assignment keeps the program grounded, also when it is refused. -/
theorem pushAssign (h : p.IsGrounded) (o : Operation α) : (p.pushAssign o).program.IsGrounded := by
  refine ⟨h.toIsSteady.pushAssign o, ?_⟩
  obtain heq | ⟨a, rfl, -, heq⟩ := p.pushAssign_program_cases o
  · rw [heq]
    exact h.sums
  · rw [heq]
    refine h.sums.cons_other ?_
    rintro ⟨c, hcall, -⟩
    contradiction

/-- Emptying a program leaves it grounded. -/
theorem clear (p : Program α) : p.clear.IsGrounded := ⟨.clear p, .nil⟩

/-- The fusion pass keeps the program grounded. -/
theorem substitute (h : p.IsGrounded) : p.substitute.program.IsGrounded := by
  refine ⟨h.toIsSteady.substitute, ?_⟩
  rw [substitute_latest]
  split
  · exact fusedLatest_grounded h.sums
  · exact h.sums

/-- Sealing keeps the program grounded. -/
theorem finalize (h : p.IsGrounded) : p.finalize.program.IsGrounded := by
  refine ⟨h.toIsSteady.finalize, ?_⟩
  have hsums := h.substitute.sums
  change Grounded p.substitute.program.closed.latest
  unfold closed
  split
  · exact hsums
  · exact hsums.cons_other Operation.not_isSum_stop

end IsGrounded

end Program

/-- An operation on `p` is refused exactly with the given code, and a refusal has no effect. -/
structure Step.Guarded (s : Step α) (p : Program α) (code : Option String) : Prop where
  code_eq : s.misuse.map Misuse.code = code
  unchanged : s.misuse ≠ none → s.program = p

/-- A program refuses what is no assignment, and an assignment without two slots. -/
theorem Program.pushAssign_guarded (p : Program α) (o : Operation α) :
    (p.pushAssign o).Guarded p
      (if o.kind ≠ .assign then some "E4003"
      else if p.stackPos < 2 then some "E4001" else none) := by
  unfold pushAssign
  split
  · exact ⟨rfl, fun _ => rfl⟩
  · split
    · exact ⟨rfl, fun _ => rfl⟩
    · have hone : 0 ≤ p.stackPos - 1 := by omega
      rw [appendRaw_eq hone]
      exact ⟨rfl, fun hrefused => absurd rfl hrefused⟩

/-- Only an empty program refuses to remove its last instruction. -/
theorem Program.popLast_guarded (p : Program α) :
    p.popLast.Guarded p (if p.size = 0 then some "E4002" else none) := by
  unfold popLast size
  cases p.latest with
  | nil => exact ⟨rfl, fun _ => rfl⟩
  | cons i rest => exact ⟨rfl, fun hrefused => absurd rfl hrefused⟩

variable [Arithmetic α]

section

variable {p q : Program α} {c : Call α}

/-- An absorbed call keeps additions above their operands. -/
theorem Absorbed.grounded (h : Absorbed p c q) (hsums : Grounded p.latest) : Grounded q.latest := by
  obtain ⟨n, v, w, pos, rest, hdrop, hlatest⟩ | ⟨e, pos, below, rest, d, hold, hlatest, hone, -⟩ :=
    h.shape
  · have hrest := hsums.drop n
    rw [hdrop] at hrest
    rw [hlatest]
    exact hrest.tail.cons_other (Operation.not_isSum_value v)
  · rw [hold] at hsums
    rw [hlatest]
    refine hsums.tail.cons_other ?_
    rintro ⟨d', ⟨⟩, -, htwo⟩
    omega

/-- A pushed call keeps additions above their operands, if it finds two where it needs two. -/
theorem Pushed.grounded (h : Pushed p c q) (hp : p.IsGrounded)
    (hroom : c.arity = 2 → 2 ≤ p.stackPos) : Grounded q.latest := by
  cases h with
  | absorbed h => exact h.grounded hp.sums
  | stored =>
    refine .cons hp.sums ?_
    rintro ⟨d, ⟨⟩, -, htwo⟩
    rw [← hp.depth]
    exact hroom htwo

/-- However a call is pushed that finds its operands, additions stay above theirs. -/
theorem CallPushed.grounded (h : CallPushed p c q) (hp : p.IsGrounded)
    (hle : c.arity ≤ p.stackPos) : Grounded q.latest := by
  cases h with
  | direct h => exact h.grounded hp fun htwo => by omega
  | @negated v pos rest _ _ _ _ hlatest h =>
    have hsums := hp.sums
    rw [hlatest] at hsums
    refine h.grounded ⟨hp.toIsSteady.replace_top hlatest _, ?_⟩ fun htwo => ?_
    · exact hsums.tail.cons_other (Operation.not_isSum_value _)
    · change c.arity = 2 at htwo
      change 2 ≤ p.stackPos
      omega
  | @through v pos above front below mid _ _ _ _ hlatest hfront htwo hagain h =>
    have hsums := hp.sums
    rw [hlatest] at hsums
    obtain _ | ⟨hbelow, hsum⟩ := hsums.tail
    -- The addition in front has its operands below it, so there is room for both calls.
    have hroom : 2 ≤ topPos below := hsum ⟨front, rfl, hfront, htwo⟩
    obtain ⟨hmid, hdepth⟩ := hagain.steady_after_front hp.toIsSteady hlatest htwo
    have hunder : ((p.rewound below).stored (.value v.negated) (topPos below + 1)).IsGrounded :=
      ⟨hp.toIsSteady.below_front hlatest _, hbelow.cons_other (Operation.not_isSum_value _)⟩
    have hagain := hagain.grounded hunder fun _ => by
      change 2 ≤ topPos below + 1
      omega
    exact h.grounded ⟨hmid, hagain⟩ fun _ => by
      rw [hdepth]
      exact hroom

end

namespace Program.IsGrounded

variable {p : Program α}

/-- In a grounded program, a call that finds its operands is never refused. -/
theorem pushCall_pushed (h : p.IsGrounded) {c : Call α} (harity : 0 ≤ c.arity)
    (hle : c.arity ≤ p.stackPos) :
    (p.pushCall c).misuse = none ∧ CallPushed p c (p.pushCall c).program := by
  obtain hpushed | ⟨v, pos, front, above, below, hlatest, hfront, htwo, hfew, -, -⟩ :=
    pushCall_cases h.toIsSteady harity hle
  · exact hpushed
  · have hsums := h.sums
    rw [hlatest] at hsums
    obtain _ | ⟨-, hsum⟩ := hsums.tail
    have hroom : 2 ≤ topPos below := hsum ⟨front, rfl, hfront, htwo⟩
    omega

/-- A grounded program refuses a call with a negative operand count, or without its operands. -/
theorem pushCall_guarded (h : p.IsGrounded) (c : Call α) :
    (p.pushCall c).Guarded p
      (if c.arity < 0 then some "E4005"
      else if p.stackPos < c.arity then some "E4001" else none) := by
  by_cases hnegative : c.arity < 0
  · rw [Program.pushCall, pushCallWith_negative hnegative, if_pos hnegative]
    exact ⟨rfl, fun _ => rfl⟩
  · have harity : 0 ≤ c.arity := Int.not_lt.mp hnegative
    rw [if_neg hnegative]
    by_cases hfew : p.stackPos < c.arity
    · rw [Program.pushCall, pushCallWith_missing harity hfew, if_pos hfew]
      exact ⟨rfl, fun _ => rfl⟩
    · have hnone := (h.pushCall_pushed harity (Int.not_lt.mp hfew)).1
      rw [if_neg hfew]
      exact ⟨by rw [hnone]; rfl, fun hrefused => absurd hnone hrefused⟩

/-- Pushing a call keeps the program grounded, also when it is refused. -/
theorem pushCall (h : p.IsGrounded) (c : Call α) : (p.pushCall c).program.IsGrounded := by
  refine ⟨h.toIsSteady.pushCall c, ?_⟩
  obtain heq | ⟨harity, hle⟩ := p.pushCall_program_cases c
  · rw [heq]
    exact h.sums
  · exact (h.pushCall_pushed harity hle).2.grounded h hle

end Program.IsGrounded

/-- Whether an action stores an instruction without its effect on the depth. -/
def Action.isRaw : Action α → Bool
  | .appendRaw _ => true
  | _ => false

/-- An action that stores nothing raw keeps the program grounded. -/
theorem Action.run_grounded {p : Program α} (h : p.IsGrounded) {a : Action α}
    (hraw : a.isRaw = false) : (a.run p).IsGrounded := by
  cases a with
  | pushValue v => exact h.pushValue v
  | pushCall c => exact h.pushCall c
  | pushAssign o => exact h.pushAssign o
  | appendRaw o => cases hraw
  | popLast => exact h.popLast
  | substitute => exact h.substitute
  | finalize => exact h.finalize
  | clear => exact .clear p

/-- Actions that store nothing raw keep the program grounded. -/
theorem Program.IsGrounded.after {p : Program α} (h : p.IsGrounded) {actions : List (Action α)}
    (hraw : ∀ a ∈ actions, a.isRaw = false) : (p.after actions).IsGrounded := by
  induction actions generalizing p with
  | nil => exact h
  | cons a rest ih =>
    obtain ⟨ha, hrest⟩ := List.forall_mem_cons.mp hraw
    exact ih (a.run_grounded h ha) hrest

/-- Refusals are exact and atomic. After any actions on an empty program that store nothing raw, with
any settings and any tokens, a call is refused exactly if its operand count is negative or exceeds
the depth, an instruction is refused as an assignment exactly if it is none or the depth is below
two, and removing an instruction is refused exactly if there is none. Each refusal has its code, and
leaves the program as it was, with all instructions and stamps, the depth, the high-water mark and
the engine selector. -/
theorem refusals_exact_and_atomic (config : Config) (draws : Nat → α) (actions : List (Action α))
    (hraw : ∀ a ∈ actions, a.isRaw = false) :
    let p := ({ config, draws } : Program α).after actions
    (∀ c : Call α, (p.pushCall c).Guarded p
      (if c.arity < 0 then some "E4005"
      else if p.stackPos < c.arity then some "E4001" else none)) ∧
    (∀ o : Operation α, (p.pushAssign o).Guarded p
      (if o.kind ≠ .assign then some "E4003"
      else if p.stackPos < 2 then some "E4001" else none)) ∧
    p.popLast.Guarded p (if p.size = 0 then some "E4002" else none) := by
  intro p
  have h : p.IsGrounded := (Program.IsGrounded.start config draws).after hraw
  exact ⟨h.pushCall_guarded, p.pushAssign_guarded, p.popLast_guarded⟩

/-- Actions that fuse a power of two operands when a program is sealed, go on after its end, and
carry a difference through an addition. -/
def extendedActions : List (Action Float) :=
  [ .pushValue (.ofSlot "x" (some "x")), .pushValue (.ofSlot "x" (some "x")),
    .pushValue (.ofSlot "y" (some "y")), .pushCall ⟨"f", some (.builtin .pow2), 2, false⟩,
    .pushCall (.operator "*" (some (.builtin .mul))), .finalize,
    .pushValue (.ofSlot "y" (some "y")), .pushCall (.operator "+" (some (.builtin .add))),
    .pushValue (.literal 2), .pushCall (.operator "-" (some (.builtin .sub))), .popLast ]

/-- Refusals are exact and atomic after these actions, with all folding on. -/
theorem refusals_exact_and_atomic_extended :
    (∀ a ∈ extendedActions, a.isRaw = false) ∧
    let p := Program.after { config := ⟨true, true, true, 50⟩, draws := fun _ => (0 : Float) }
      extendedActions
    (∀ c : Call Float, (p.pushCall c).Guarded p
      (if c.arity < 0 then some "E4005"
      else if p.stackPos < c.arity then some "E4001" else none)) ∧
    (∀ o : Operation Float, (p.pushAssign o).Guarded p
      (if o.kind ≠ .assign then some "E4003"
      else if p.stackPos < 2 then some "E4001" else none)) ∧
    p.popLast.Guarded p (if p.size = 0 then some "E4002" else none) :=
  ⟨by decide, refusals_exact_and_atomic _ _ extendedActions (by decide)⟩

end StackCode
