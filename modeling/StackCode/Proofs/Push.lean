import StackCode.Program.Folding
import StackCode.Proofs.Depth

/-!
# What pushing a call can do

A call that is pushed is absorbed by the values in front of it, or stored. A subtraction of a value
may first become an addition, and the addition in front of that value may be pushed again. The
relations of this file list these possibilities with their guards, and the main lemma says that
there are no others; what a push preserves is then shown for each of them.

The lemmas ask for steady stamps only. Then no depth wraps around, and a refusal comes from the
operand count, or from an addition that was stored without its operands and is pushed again.
-/

namespace StackCode

universe u

variable {α : Type u}

namespace Program

/-- The program after an operation was stored at a depth. -/
def stored (p : Program α) (o : Operation α) (depth : Int) : Program α :=
  { p with
    latest := ⟨o, depth⟩ :: p.latest
    stackPos := depth
    highWater := max p.highWater depth }

/-- The stamps of a program are steady, and its depth is the last of them. -/
structure IsSteady (p : Program α) : Prop where
  stamps : Steady p.latest
  depth : p.stackPos = topPos p.latest

namespace IsSteady

variable {p : Program α}

/-- The depth is not negative. -/
theorem stackPos_nonneg (h : p.IsSteady) : 0 ≤ p.stackPos := by
  rw [h.depth]
  exact h.stamps.topPos_nonneg

/-- The instructions account for the depth. -/
theorem stackPos_le_size (h : p.IsSteady) : p.stackPos ≤ p.size := by
  rw [h.depth]
  exact h.stamps.topPos_le_length

/-- Returning to steady instructions gives a steady program. -/
theorem rewound {latest : List (Instruction α)} (h : Steady latest) :
    (p.rewound latest).IsSteady := ⟨h, rfl⟩

/-- Storing an operation that adds no more than it may keeps the program steady. -/
theorem stored (h : p.IsSteady) {o : Operation α} {depth : Int} (hnonneg : 0 ≤ depth)
    (hgrowth : depth ≤ p.stackPos + o.growth) : (p.stored o depth).IsSteady := by
  refine ⟨.cons h.stamps hnonneg ?_, rfl⟩
  rw [← h.depth]
  exact hgrowth

/-- A call that takes its operands keeps the program steady. -/
theorem stored_call (h : p.IsSteady) {c : Call α} (harity : 0 ≤ c.arity)
    (hnonneg : 0 ≤ p.stackPos - c.arity + 1) :
    (p.stored (.call { c with binary := false }) (p.stackPos - c.arity + 1)).IsSteady := by
  apply h.stored hnonneg
  simp only [Operation.growth]
  split
  · rename_i hoperator
    have := hoperator.1
    omega
  · omega

/-- Another value in the place of the value on top keeps the program steady. -/
theorem replace_top (h : p.IsSteady) {v : Value α} {pos : Int} {rest : List (Instruction α)}
    (hlatest : p.latest = ⟨.value v, pos⟩ :: rest) (w : Value α) :
    IsSteady { p with latest := ⟨.value w, pos⟩ :: rest } := by
  obtain ⟨hstamps, hdepth⟩ := h
  rw [hlatest] at hstamps hdepth
  exact ⟨hstamps.replace_value w, hdepth⟩

/-- A value may be stored below the two instructions on top. -/
theorem below_front (h : p.IsSteady) {i j : Instruction α} {below : List (Instruction α)}
    (hlatest : p.latest = i :: j :: below) (w : Value α) :
    ((p.rewound below).stored (.value w) (topPos below + 1)).IsSteady := by
  have hstamps := h.stamps
  rw [hlatest] at hstamps
  have hunder : (p.rewound below).IsSteady := rewound hstamps.tail.tail
  have hnonneg : 0 ≤ topPos below := hunder.stackPos_nonneg
  exact hunder.stored (by omega) (Int.le_refl _)

/-- The addition in front of a value added no slot of its own, so the depth is at most one slot above
what is below the addition. -/
theorem stackPos_le_below (h : p.IsSteady) {v : Value α} {pos above : Int}
    {front : Call α} {below : List (Instruction α)}
    (hlatest : p.latest = ⟨.value v, pos⟩ :: ⟨.call front, above⟩ :: below)
    (hfront : front.name = "+") (htwo : front.arity = 2) : p.stackPos ≤ topPos below + 1 := by
  obtain ⟨hstamps, hdepth⟩ := h
  rw [hlatest] at hstamps hdepth
  obtain _ | ⟨hrest, _, hgrowth⟩ := hstamps
  obtain _ | ⟨_, _, hsum⟩ := hrest
  have hzero : (Operation.call front).growth = 0 := by simp [Operation.growth, hfront, htwo]
  change p.stackPos = pos at hdepth
  change pos ≤ above + 1 at hgrowth
  rw [hzero] at hsum
  change above ≤ topPos below + 0 at hsum
  omega

end IsSteady

/-- Nothing is refused at a depth that is not negative. -/
theorem appendRaw_eq {p : Program α} (h : 0 ≤ p.stackPos) (o : Operation α) :
    p.appendRaw o = { program := { p with latest := ⟨o, p.stackPos⟩ :: p.latest } } :=
  if_neg (Int.not_lt.mpr h)

/-- Pushing a value stores it one slot higher. -/
theorem pushValue_eq {p : Program α} (h : p.IsSteady) (v : Value α) :
    p.pushValue v = p.stored (.value v) (p.stackPos + 1) := by
  have hnonneg := h.stackPos_nonneg
  have hsize := h.stackPos_le_size
  have hsettle : settle (p.size + 1) (p.stackPos + 1) = p.stackPos + 1 :=
    settle_of_le (by omega) (by omega)
  simp only [pushValue, moveTo, hsettle]
  rw [appendRaw_eq (by simp only; omega)]
  rfl

/-- Storing a call puts its result in place of its operands. -/
theorem storeCall_eq {p : Program α} {c : Call α} (h : p.IsSteady) (harity : 0 ≤ c.arity)
    (hnonneg : 0 ≤ p.stackPos - c.arity + 1) :
    p.storeCall c =
      { program := p.stored (.call { c with binary := false }) (p.stackPos - c.arity + 1) } := by
  have hsize := h.stackPos_le_size
  have hsettle : settle (p.size + 1) (p.stackPos - c.arity + 1) = p.stackPos - c.arity + 1 :=
    settle_of_le hnonneg (by omega)
  simp only [storeCall, moveTo, hsettle]
  rw [appendRaw_eq (by simp only; omega)]
  rfl

/-- The outcome of a push after the operand count was checked. -/
def settled (f : Folding α) : Step α :=
  match f with
  | .absorbed q events => { program := q, events }
  | .refused q events m => { program := q, events, misuse := some m }
  | .kept q c events =>
    let step := q.storeCall c
    { step with events := events ++ step.events }

/-- A negative operand count is refused. -/
theorem pushCallWith_negative {p : Program α} {c : Call α}
    {rule : Program α → Call α → Folding α} (harity : c.arity < 0) :
    pushCallWith rule p c =
      { program := p, misuse := some (.negativeArity c.name c.arity) } := if_pos harity

/-- A call that does not find its operands is refused. -/
theorem pushCallWith_missing {p : Program α} {c : Call α}
    {rule : Program α → Call α → Folding α} (harity : 0 ≤ c.arity) (hfew : p.stackPos < c.arity) :
    pushCallWith rule p c =
      { program := p, misuse := some (.missingOperands c.name c.arity p.stackPos) } := by
  unfold pushCallWith
  rw [if_neg (Int.not_lt.mpr harity), if_pos hfew]

/-- A call that finds its operands goes through the folding rule. -/
theorem pushCallWith_eq {p : Program α} {c : Call α} {rule : Program α → Call α → Folding α}
    (harity : 0 ≤ c.arity) (hle : c.arity ≤ p.stackPos) :
    pushCallWith rule p c = settled (if p.config.optimizer then rule p c else .kept p c []) := by
  unfold pushCallWith
  rw [if_neg (Int.not_lt.mpr harity), if_neg (Int.not_lt.mpr hle)]
  rfl

/-- A call that does not find its operands is refused and leaves the program alone. -/
theorem pushCall_refused_cases [Arithmetic α] (p : Program α) (c : Call α) :
    ((p.pushCall c).program = p ∧ (p.pushCall c).misuse ≠ none) ∨
      (0 ≤ c.arity ∧ c.arity ≤ p.stackPos) := by
  by_cases harity : c.arity < 0
  · rw [pushCall, pushCallWith_negative harity]
    exact Or.inl ⟨rfl, nofun⟩
  · have harity : 0 ≤ c.arity := Int.not_lt.mp harity
    by_cases hfew : p.stackPos < c.arity
    · rw [pushCall, pushCallWith_missing harity hfew]
      exact Or.inl ⟨rfl, nofun⟩
    · exact Or.inr ⟨harity, Int.not_lt.mp hfew⟩

/-- A call that does not find its operands leaves the program alone. -/
theorem pushCall_program_cases [Arithmetic α] (p : Program α) (c : Call α) :
    (p.pushCall c).program = p ∨ (0 ≤ c.arity ∧ c.arity ≤ p.stackPos) :=
  (p.pushCall_refused_cases c).imp And.left fun h => h

end Program

/-- Calls on literals are computed while they are pushed. -/
def Config.FoldsLiterals (config : Config) : Prop :=
  config.optimizer = true ∧ config.constantFolding = true

/-- Linear values are merged while calls are pushed. -/
def Config.FoldsLinear (config : Config) : Prop :=
  config.optimizer = true ∧ config.linearFolding = true

/-- No folding rule counts. -/
def Config.FoldsNothing (config : Config) : Prop :=
  ¬config.FoldsLiterals ∧ ¬config.FoldsLinear

/-- Without the optimizer, no folding rule counts. -/
theorem Config.FoldsNothing.of_plain {config : Config} (h : config.optimizer = false) :
    config.FoldsNothing := by
  simp [FoldsNothing, FoldsLiterals, FoldsLinear, h]

/-- The addition that a subtraction of a negated value becomes. -/
def Call.asSum (c : Call α) : Call α :=
  { c with name := "+", routine := some (.builtin .add) }

variable [Arithmetic α]

/-- A call that was pushed is part of the values in front of it. -/
inductive Absorbed (p : Program α) (c : Call α) : Program α → Prop
  /-- A call on literals is its result, at the place of the first of them. -/
  | literals {r : Routine α} {xs : List α} {first : Instruction α} {rest : List (Instruction α)}
      (hconstant : p.config.FoldsLiterals) (hroutine : c.routine = some r)
      (hpos : 0 < c.arity.toNat) (hslots : c.arity.toNat < foldSlots)
      (hoperands : literalOperands? c.arity.toNat p.latest = some xs)
      (hfirst : p.latest.drop (c.arity.toNat - 1) = first :: rest) :
      Absorbed p c ((p.afterDraw r).rewound
        (⟨.value (.literal (r.onLiterals (p.draws 0) xs)), first.stackPos⟩ :: rest))
  /-- A sum of values of at most one variable is one value. -/
  | sum {a b : Value α} {top pos : Int} {rest : List (Instruction α)}
      (hlinear : p.config.FoldsLinear) (hbinary : c.binary = true) (hname : c.name = "+")
      (hlatest : p.latest = ⟨.value b, top⟩ :: ⟨.value a, pos⟩ :: rest)
      (hvariable : a.isConstant = true ∨ b.isConstant = true ∨ a.source = b.source) :
      Absorbed p c (p.rewound (⟨.value (a.plus b), pos⟩ :: rest))
  /-- A value times a literal is one value. -/
  | product {a b v : Value α} {top pos : Int} {rest : List (Instruction α)}
      (hlinear : p.config.FoldsLinear) (hbinary : c.binary = true) (hname : c.name = "*")
      (hlatest : p.latest = ⟨.value b, top⟩ :: ⟨.value a, pos⟩ :: rest)
      (hvalue : a.isConstant = false ∧ b.isConstant = true ∧ v = a.timesRight b.offset ∨
        a.isConstant = true ∧ b.isConstant = false ∧ v = b.timesRight a.offset) :
      Absorbed p c (p.rewound (⟨.value v, pos⟩ :: rest))
  /-- A power with a small literal exponent is the routine for that exponent. -/
  | power {e : Value α} {pos : Int} {below : Instruction α} {rest : List (Instruction α)} {n : Nat}
      {b : Builtin}
      (hlinear : p.config.FoldsLinear) (hbinary : c.binary = true) (hname : c.name = "^")
      (hlatest : p.latest = ⟨.value e, pos⟩ :: below :: rest) (hconstant : e.isConstant = true)
      (hexponent : Arithmetic.smallExponent? e.offset = some n)
      (hroutine : Builtin.ofExponent? n = some b) :
      Absorbed p c (p.rewound
        (⟨.call ⟨s!"^{n}", some (.builtin b), 1, false⟩, below.stackPos⟩ :: below :: rest))

/-- A call that was pushed is absorbed or stored. -/
inductive Pushed (p : Program α) (c : Call α) : Program α → Prop
  | absorbed {q : Program α} (h : Absorbed p c q) : Pushed p c q
  | stored : Pushed p c
      (p.stored (.call { c with binary := false }) (p.stackPos - c.arity + 1))

/-- All that a successful push of a call can do. -/
inductive CallPushed (p : Program α) (c : Call α) : Program α → Prop
  /-- The call is pushed as it is. -/
  | direct {q : Program α} (h : Pushed p c q) : CallPushed p c q
  /-- A subtraction of a value is pushed as an addition of the negated value. -/
  | negated {v : Value α} {pos : Int} {rest : List (Instruction α)} {q : Program α}
      (hlinear : p.config.FoldsLinear) (hbinary : c.binary = true) (hname : c.name = "-")
      (hlatest : p.latest = ⟨.value v, pos⟩ :: rest)
      (h : Pushed { p with latest := ⟨.value v.negated, pos⟩ :: rest } c.asSum q) :
      CallPushed p c q
  /-- The negated value goes below the addition in front of it, which is pushed again. -/
  | through {v : Value α} {pos above : Int} {front : Call α} {below : List (Instruction α)}
      {mid q : Program α}
      (hlinear : p.config.FoldsLinear) (hbinary : c.binary = true) (hname : c.name = "-")
      (hlatest : p.latest = ⟨.value v, pos⟩ :: ⟨.call front, above⟩ :: below)
      (hfront : front.name = "+") (harity : front.arity = 2)
      (hagain : Pushed ((p.rewound below).stored (.value v.negated) (topPos below + 1))
        { front with binary := true } mid)
      (h : Pushed mid c.asSum q) : CallPushed p c q

namespace Folding

/-- A folding that absorbed the call by one of the rules, or left it and the program alone. -/
def Explained (p : Program α) (c : Call α) : Folding α → Prop
  | .absorbed q _ => Absorbed p c q
  | .kept q d _ => q = p ∧ d = c
  | .refused .. => False

/-- Events in front do not change what became of a call. -/
theorem explained_after {p : Program α} {c : Call α} {f : Folding α} (h : f.Explained p c)
    (earlier : List (Event α)) : (f.after earlier).Explained p c := by
  cases f with
  | absorbed q events => exact h
  | kept q d events => exact h
  | refused q events m => exact h

end Folding

namespace Program

variable {p : Program α} {c : Call α}

/-- Computing a call on literals absorbs it. -/
theorem foldConstant?_absorbed {q : Program α} {event : Event α}
    (hconstant : p.config.FoldsLiterals) (h : p.foldConstant? c = some (q, event)) :
    Absorbed p c q := by
  simp only [foldConstant?] at h
  split at h
  · contradiction
  · rename_i hcount
    split at h
    · rename_i r xs first rest hroutine hoperands hfirst
      simp only [Option.some.injEq, Prod.mk.injEq] at h
      obtain ⟨rfl, -⟩ := h
      exact .literals hconstant hroutine (by omega) (by omega) hoperands hfirst
    · contradiction

/-- Adding the two values in front absorbs an addition, or leaves it alone. -/
theorem foldSum_explained (hlinear : p.config.FoldsLinear) (hbinary : c.binary = true)
    (hname : c.name = "+") : (p.foldSum c).Explained p c := by
  unfold foldSum
  split
  · rename_i b top a pos rest hlatest
    split
    · exact ⟨rfl, rfl⟩
    · rename_i hvariable
      refine .sum hlinear hbinary hname hlatest ?_
      simp only [Bool.and_eq_true, Bool.not_eq_true', bne_iff_ne, ne_eq] at hvariable
      cases ha : a.isConstant <;> cases hb : b.isConstant <;> simp_all
  · exact ⟨rfl, rfl⟩

/-- Scaling the value in front absorbs a multiplication, or leaves it alone. -/
theorem foldProduct_explained (hlinear : p.config.FoldsLinear) (hbinary : c.binary = true)
    (hname : c.name = "*") : (p.foldProduct c).Explained p c := by
  unfold foldProduct
  split
  · rename_i b top a pos rest hlatest
    dsimp only
    split
    · rename_i ha hb
      exact .product hlinear hbinary hname hlatest (Or.inl ⟨ha, hb, rfl⟩)
    · rename_i ha hb
      exact .product hlinear hbinary hname hlatest (Or.inr ⟨ha, hb, rfl⟩)
    · exact ⟨rfl, rfl⟩
  · exact ⟨rfl, rfl⟩

/-- Replacing a small power absorbs it, or leaves it alone; the replacement is never refused. -/
theorem foldPower_explained (hsteady : Steady p.latest)
    (hlinear : p.config.FoldsLinear) (hbinary : c.binary = true) (hname : c.name = "^") :
    (p.foldPower c).Explained p c := by
  unfold foldPower
  split
  · rename_i e pos below rest hlatest
    rw [hlatest] at hsteady
    have hnonneg : 0 ≤ (p.rewound (below :: rest)).stackPos := hsteady.tail.topPos_nonneg
    split
    · exact ⟨rfl, rfl⟩
    · rename_i hconstant
      split
      · exact ⟨rfl, rfl⟩
      · rename_i n hexponent
        split
        · exact ⟨rfl, rfl⟩
        · rename_i b hroutine
          simp only [appendRaw_eq hnonneg]
          exact .power hlinear hbinary hname hlatest (by simpa using hconstant) hexponent hroutine
  · exact ⟨rfl, rfl⟩

/-- Any call but a subtraction is absorbed by one of the rules, or left alone. -/
theorem fold_explained (difference : Program α → Call α → Folding α)
    (hoptimizer : p.config.optimizer = true) (hsteady : Steady p.latest)
    (hother : p.config.FoldsLinear → c.binary = true → c.name ≠ "-") :
    (p.fold difference c).Explained p c := by
  unfold fold
  split
  · rename_i q event hfold
    split at hfold
    · rename_i hconstant
      exact foldConstant?_absorbed ⟨hoptimizer, hconstant⟩ hfold
    · contradiction
  · split
    · rename_i hon
      obtain ⟨hrule, hbinary⟩ := Bool.and_eq_true_iff.mp hon
      have hlinear : p.config.FoldsLinear := ⟨hoptimizer, hrule⟩
      split
      · rename_i hname
        exact foldSum_explained hlinear hbinary hname
      · rename_i hname
        exact absurd hname (hother hlinear hbinary)
      · rename_i hname
        exact foldProduct_explained hlinear hbinary hname
      · rename_i hname
        exact foldPower_explained hsteady hlinear hbinary hname
      · exact ⟨rfl, rfl⟩
    · exact ⟨rfl, rfl⟩

end Program

/-- The last of the literal operands is on top, and the others are literal operands below it. -/
theorem literalOperands?_succ {n : Nat} {latest : List (Instruction α)} {xs : List α}
    (h : literalOperands? (n + 1) latest = some xs) :
    ∃ v pos rest ys, latest = ⟨.value v, pos⟩ :: rest ∧ v.isConstant = true ∧
      literalOperands? n rest = some ys ∧ xs = ys ++ [v.offset] := by
  unfold literalOperands? at h
  split at h
  · contradiction
  · rename_i v pos rest hcount
    cases hcount
    split at h
    · rename_i hconstant
      obtain ⟨ys, hys, rfl⟩ := Option.map_eq_some_iff.mp h
      exact ⟨v, pos, rest, ys, rfl, hconstant, hys, rfl⟩
    · contradiction
  · contradiction

/-- The operands of a call on literals are values, so the first of them is one. -/
theorem literalOperands?_first {n : Nat} {latest : List (Instruction α)} {xs : List α}
    (h : literalOperands? (n + 1) latest = some xs) :
    ∃ w pos rest, latest.drop n = ⟨.value w, pos⟩ :: rest := by
  induction n generalizing latest xs with
  | zero =>
    obtain ⟨v, pos, rest, -, rfl, -, -, -⟩ := literalOperands?_succ h
    exact ⟨v, pos, rest, rfl⟩
  | succ n ih =>
    obtain ⟨v, pos, rest, ys, rfl, -, hys, -⟩ := literalOperands?_succ h
    exact ih hys

namespace Absorbed

variable {p q : Program α} {c : Call α}

/-- An absorbed call leaves the settings and the high-water mark alone, and the depth is the last
stamp. -/
theorem frame (h : Absorbed p c q) :
    q.config = p.config ∧ q.highWater = p.highWater ∧ q.stackPos = topPos q.latest := by
  cases h with
  | @literals r _ _ _ _ _ _ _ _ _ =>
    unfold Program.afterDraw
    split <;> exact ⟨rfl, rfl, rfl⟩
  | sum _ _ _ _ _ => exact ⟨rfl, rfl, rfl⟩
  | product _ _ _ _ _ => exact ⟨rfl, rfl, rfl⟩
  | power _ _ _ _ _ _ _ => exact ⟨rfl, rfl, rfl⟩

/-- Only folding absorbs calls. -/
theorem folds (h : Absorbed p c q) : p.config.FoldsLiterals ∨ p.config.FoldsLinear := by
  cases h with
  | literals hconstant _ _ _ _ _ => exact Or.inl hconstant
  | sum hlinear _ _ _ _ => exact Or.inr hlinear
  | product hlinear _ _ _ _ => exact Or.inr hlinear
  | power hlinear _ _ _ _ _ _ => exact Or.inr hlinear

/-- An absorbed call leaves a value in the place of an earlier one, or a call of one operand in
the place of the value on top. -/
theorem shape (h : Absorbed p c q) :
    (∃ n v w pos rest, p.latest.drop n = ⟨.value w, pos⟩ :: rest ∧
      q.latest = ⟨.value v, pos⟩ :: rest) ∨
    ∃ e pos below rest d, p.latest = ⟨.value e, pos⟩ :: below :: rest ∧
      q.latest = ⟨.call d, below.stackPos⟩ :: below :: rest ∧ d.arity = 1 ∧ d.binary = false := by
  cases h with
  | literals _ _ hpos _ hoperands hfirst =>
    obtain ⟨n, hn⟩ : ∃ n, c.arity.toNat = n + 1 := ⟨_, (Nat.sub_add_cancel hpos).symm⟩
    rw [hn] at hoperands
    rw [hn, Nat.add_sub_cancel] at hfirst
    obtain ⟨w, pos, below, hvalue⟩ := literalOperands?_first hoperands
    rw [hvalue] at hfirst
    cases hfirst
    exact Or.inl ⟨n, _, w, pos, _, hvalue, rfl⟩
  | sum _ _ _ hlatest _ => exact Or.inl ⟨1, _, _, _, _, by rw [hlatest]; rfl, rfl⟩
  | product _ _ _ hlatest _ => exact Or.inl ⟨1, _, _, _, _, by rw [hlatest]; rfl, rfl⟩
  | power _ _ _ hlatest _ _ _ => exact Or.inr ⟨_, _, _, _, _, hlatest, rfl, rfl, rfl⟩

/-- An absorbed call keeps the program steady. -/
theorem isSteady (h : Absorbed p c q) (hsteady : p.IsSteady) : q.IsSteady := by
  refine ⟨?_, h.frame.2.2⟩
  obtain ⟨n, v, w, pos, rest, hdrop, hlatest⟩ | ⟨e, pos, below, rest, d, hold, hlatest, -, -⟩ :=
    h.shape
  · have hrest := hsteady.stamps.drop n
    rw [hdrop] at hrest
    rw [hlatest]
    exact hrest.replace_value v
  · have hrest := hsteady.stamps
    rw [hold] at hrest
    rw [hlatest]
    refine .cons hrest.tail hrest.tail.topPos_nonneg ?_
    exact Int.le_add_of_nonneg_right (Operation.growth_nonneg _)

/-- An absorbed call of two operands ends at the depth below the value on top. -/
theorem stackPos_of_binary (h : Absorbed p c q) (harity : c.arity = 2) :
    q.stackPos = topPos p.latest.tail := by
  cases h with
  | literals _ _ _ _ _ hfirst =>
    rw [harity] at hfirst
    change p.latest.drop 1 = _ at hfirst
    rw [← List.drop_one, hfirst]
    rfl
  | sum _ _ _ hlatest _ => rw [hlatest]; rfl
  | product _ _ _ hlatest _ => rw [hlatest]; rfl
  | power _ _ _ hlatest _ _ _ => rw [hlatest]; rfl

end Absorbed

namespace Pushed

variable {p q : Program α} {c : Call α}

/-- A pushed call leaves the settings alone. -/
theorem config_eq (h : Pushed p c q) : q.config = p.config := by
  cases h with
  | absorbed h => exact h.frame.1
  | stored => rfl

/-- A pushed call of two operands takes one slot away. -/
theorem stackPos_of_binary (h : Pushed p c q) (harity : c.arity = 2)
    (htop : topPos p.latest.tail = p.stackPos - 1) : q.stackPos = p.stackPos - 1 := by
  cases h with
  | absorbed h => rw [h.stackPos_of_binary harity, htop]
  | stored =>
    change p.stackPos - c.arity + 1 = p.stackPos - 1
    omega

/-- A pushed call keeps the program steady. -/
theorem isSteady (h : Pushed p c q) (hsteady : p.IsSteady) (harity : 0 ≤ c.arity)
    (hnonneg : 0 ≤ p.stackPos - c.arity + 1) : q.IsSteady := by
  cases h with
  | absorbed h => exact h.isSteady hsteady
  | stored => exact hsteady.stored_call harity hnonneg

end Pushed

/-- The addition in front, pushed again below the value, ends at the depth below it. -/
theorem Pushed.steady_after_front {p mid : Program α} (hsteady : p.IsSteady) {i j : Instruction α}
    {w : Value α} {front : Call α} {below : List (Instruction α)}
    (hlatest : p.latest = i :: j :: below) (htwo : front.arity = 2)
    (hagain : Pushed ((p.rewound below).stored (.value w) (topPos below + 1))
      { front with binary := true } mid) : mid.IsSteady ∧ mid.stackPos = topPos below := by
  have hbelow : 0 ≤ topPos below := by
    have hstamps := hsteady.stamps
    rw [hlatest] at hstamps
    exact hstamps.tail.tail.topPos_nonneg
  constructor
  · refine hagain.isSteady (hsteady.below_front hlatest w) ?_ ?_
    · change 0 ≤ front.arity
      omega
    · change 0 ≤ topPos below + 1 - front.arity + 1
      omega
  · rw [hagain.stackPos_of_binary htwo (Int.add_sub_cancel _ _).symm]
    exact Int.add_sub_cancel _ _

/-- However a call is pushed that finds its operands, the program stays steady. -/
theorem CallPushed.isSteady {p q : Program α} {c : Call α} (h : CallPushed p c q)
    (hsteady : p.IsSteady) (harity : 0 ≤ c.arity) (hle : c.arity ≤ p.stackPos) : q.IsSteady := by
  cases h with
  | direct h => exact h.isSteady hsteady harity (by omega)
  | negated _ _ _ hlatest h =>
    refine h.isSteady (hsteady.replace_top hlatest _) harity ?_
    change 0 ≤ p.stackPos - c.arity + 1
    omega
  | @through _ _ _ _ _ mid _ _ _ _ hlatest hfront htwo hagain h =>
    obtain ⟨hmid, hdepth⟩ := hagain.steady_after_front hsteady hlatest htwo
    have hroom := hsteady.stackPos_le_below hlatest hfront htwo
    refine h.isSteady hmid harity ?_
    change 0 ≤ mid.stackPos - c.arity + 1
    omega

/-- However a call is pushed, the settings stay as they are. -/
theorem CallPushed.config_eq {p q : Program α} {c : Call α} (h : CallPushed p c q) :
    q.config = p.config := by
  cases h with
  | direct h => exact h.config_eq
  | negated _ _ _ _ h => exact h.config_eq
  | through _ _ _ _ _ _ hagain h => rw [h.config_eq, hagain.config_eq]; rfl

/-- Without folding, a pushed call is stored. -/
theorem CallPushed.eq_stored {p q : Program α} {c : Call α} (h : CallPushed p c q)
    (hnothing : p.config.FoldsNothing) :
    q = p.stored (.call { c with binary := false }) (p.stackPos - c.arity + 1) := by
  cases h with
  | direct h =>
    cases h with
    | absorbed h => exact absurd h.folds (not_or.mpr hnothing)
    | stored => rfl
  | negated hlinear _ _ _ _ => exact absurd hlinear hnothing.2
  | through hlinear _ _ _ _ _ _ _ => exact absurd hlinear hnothing.2

namespace Program

variable {p : Program α} {c : Call α}

/-- A folding by the rules ends in a pushed call. -/
theorem settled_pushed {f : Folding α} (hf : f.Explained p c) (hsteady : p.IsSteady)
    (harity : 0 ≤ c.arity) (hnonneg : 0 ≤ p.stackPos - c.arity + 1) :
    (settled f).misuse = none ∧ Pushed p c (settled f).program := by
  cases f with
  | absorbed q events => exact ⟨rfl, .absorbed hf⟩
  | refused q events m => exact hf.elim
  | kept q d events =>
    obtain ⟨rfl, rfl⟩ := hf
    simp only [settled, storeCall_eq hsteady harity hnonneg]
    exact ⟨trivial, .stored⟩

/-- Pushing an addition again absorbs or stores it. -/
theorem pushAgain_pushed (hsteady : p.IsSteady) (hname : c.name = "+") (harity : 0 ≤ c.arity)
    (hle : c.arity ≤ p.stackPos) :
    (p.pushAgain c).misuse = none ∧ Pushed p c (p.pushAgain c).program := by
  rw [pushAgain, pushCallWith_eq harity hle]
  refine settled_pushed ?_ hsteady harity (by omega)
  split
  · rename_i hoptimizer
    exact fold_explained foldSum hoptimizer hsteady.stamps fun _ _ => by rw [hname]; decide
  · exact ⟨rfl, rfl⟩

/-- A subtraction of a value, stored as an addition of the negated value or absorbed by it. -/
theorem settled_negated {v : Value α} {pos : Int} {rest : List (Instruction α)}
    (hsteady : p.IsSteady) (harity : 0 ≤ c.arity) (hle : c.arity ≤ p.stackPos)
    (hlinear : p.config.FoldsLinear) (hbinary : c.binary = true) (hname : c.name = "-")
    (hlatest : p.latest = ⟨.value v, pos⟩ :: rest) :
    let f := foldSum { p with latest := ⟨.value v.negated, pos⟩ :: rest } c.asSum
    (settled f).misuse = none ∧ CallPushed p c (settled f).program := by
  have hfold := foldSum_explained (p := { p with latest := ⟨.value v.negated, pos⟩ :: rest })
    (c := c.asSum) hlinear hbinary rfl
  obtain ⟨hnone, hpushed⟩ := settled_pushed hfold (hsteady.replace_top hlatest _) harity (by
    change 0 ≤ p.stackPos - c.arity + 1
    omega)
  exact ⟨hnone, .negated hlinear hbinary hname hlatest hpushed⟩

/-- A push that goes through the addition in front ends below it, where two operands are left for
that addition; otherwise the addition is refused. -/
theorem settled_through {v : Value α} {pos above : Int} {front : Call α}
    {below : List (Instruction α)} (hsteady : p.IsSteady) (harity : 0 ≤ c.arity)
    (hle : c.arity ≤ p.stackPos) (hlinear : p.config.FoldsLinear)
    (hbinary : c.binary = true) (hname : c.name = "-")
    (hlatest : p.latest = ⟨.value v, pos⟩ :: ⟨.call front, above⟩ :: below)
    (hfront : front.name = "+") (htwo : front.arity = 2) (hbelow : 1 ≤ topPos below) :
    let step := pushAgain ((p.rewound below).pushValue v.negated) { front with binary := true }
    let f := (step.program.foldSum c.asSum).after step.events
    step.misuse = none ∧ (settled f).misuse = none ∧ CallPushed p c (settled f).program := by
  have hstamps := hsteady.stamps
  rw [hlatest] at hstamps
  rw [pushValue_eq (.rewound hstamps.tail.tail)]
  obtain ⟨hnone, hagain⟩ := pushAgain_pushed (c := { front with binary := true })
    (hsteady.below_front hlatest v.negated) hfront
    (by change 0 ≤ front.arity; omega) (by change front.arity ≤ topPos below + 1; omega)
  intro step f
  change step.misuse = none at hnone
  change Pushed _ _ step.program at hagain
  obtain ⟨hmid, hdepth⟩ := hagain.steady_after_front hsteady hlatest htwo
  have hroom : p.stackPos ≤ topPos below + 1 := hsteady.stackPos_le_below hlatest hfront htwo
  have hfold := foldSum_explained (p := step.program) (c := c.asSum)
    (by rw [hagain.config_eq]; exact hlinear) hbinary rfl
  obtain ⟨hsettled, hpushed⟩ := settled_pushed (Folding.explained_after hfold step.events) hmid
    harity (by change 0 ≤ step.program.stackPos - c.arity + 1; omega)
  exact ⟨hnone, hsettled,
    .through hlinear hbinary hname hlatest hfront htwo hagain hpushed⟩

/-- An addition that does not find two operands again is refused. -/
theorem pushAgain_refused {below : List (Instruction α)} (hunder : (p.rewound below).IsSteady)
    (v : Value α) {front : Call α} (htwo : front.arity = 2) (hbelow : topPos below < 1) :
    pushAgain ((p.rewound below).pushValue v.negated) { front with binary := true } =
      { program := (p.rewound below).stored (.value v.negated) (topPos below + 1)
        misuse := some (.missingOperands front.name front.arity (topPos below + 1)) } := by
  rw [pushValue_eq hunder]
  exact pushCallWith_missing (by change 0 ≤ front.arity; omega)
    (by change topPos below + 1 < front.arity; omega)

/-- The addition in front of a subtracted value was stored without its operands, and pushing it
again is refused; the negated value is then on top. -/
def RefusedAgain (p : Program α) (s : Step α) : Prop :=
  ∃ v pos front above below, p.latest = ⟨.value v, pos⟩ :: ⟨.call front, above⟩ :: below ∧
    front.name = "+" ∧ front.arity = 2 ∧ topPos below < 1 ∧
    s.misuse = some (.missingOperands front.name front.arity (topPos below + 1)) ∧
    s.program = (p.rewound below).stored (.value v.negated) (topPos below + 1)

/-- Folding a subtraction ends in a pushed call, or in the refusal of the addition in front. -/
theorem settled_foldDifference (hsteady : p.IsSteady) (harity : 0 ≤ c.arity)
    (hle : c.arity ≤ p.stackPos) (hlinear : p.config.FoldsLinear)
    (hbinary : c.binary = true) (hname : c.name = "-") :
    ((settled (p.foldDifference pushAgain c)).misuse = none ∧
      CallPushed p c (settled (p.foldDifference pushAgain c)).program) ∨
    RefusedAgain p (settled (p.foldDifference pushAgain c)) := by
  unfold foldDifference
  split
  · rename_i v pos rest hlatest
    dsimp only
    split
    · rename_i front above below
      split
      · rename_i hfront
        by_cases hbelow : 1 ≤ topPos below
        · left
          obtain ⟨hnone, hpushed⟩ := settled_through hsteady harity hle hlinear hbinary hname hlatest
            hfront.1 hfront.2 hbelow
          rw [hnone]
          exact hpushed
        · right
          have hstamps := hsteady.stamps
          rw [hlatest] at hstamps
          have hbelow : topPos below < 1 := Int.not_le.mp hbelow
          rw [pushAgain_refused (.rewound hstamps.tail.tail) v hfront.2 hbelow]
          exact ⟨v, pos, front, above, below, hlatest, hfront.1, hfront.2, hbelow, rfl, rfl⟩
      · exact Or.inl (settled_negated hsteady harity hle hlinear hbinary hname hlatest)
    · exact Or.inl (settled_negated hsteady harity hle hlinear hbinary hname hlatest)
  · left
    obtain ⟨hnone, hpushed⟩ := settled_pushed (f := .kept p c []) ⟨rfl, rfl⟩ hsteady harity
      (by omega)
    exact ⟨hnone, .direct hpushed⟩

/-- A call that finds its operands is pushed in one of the listed ways, or the addition in front
of a subtracted value is refused. -/
theorem pushCall_cases (hsteady : p.IsSteady) (harity : 0 ≤ c.arity) (hle : c.arity ≤ p.stackPos) :
    ((p.pushCall c).misuse = none ∧ CallPushed p c (p.pushCall c).program) ∨
      RefusedAgain p (p.pushCall c) := by
  have hdirect {f : Folding α} (hf : f.Explained p c) :
      (settled f).misuse = none ∧ CallPushed p c (settled f).program := by
    obtain ⟨hnone, hpushed⟩ := settled_pushed hf hsteady harity (by omega)
    exact ⟨hnone, .direct hpushed⟩
  rw [pushCall, pushCallWith_eq harity hle]
  split
  · rename_i hoptimizer
    by_cases hsub : p.config.FoldsLinear ∧ c.binary = true ∧ c.name = "-"
    · obtain ⟨hlinear, hbinary, hname⟩ := hsub
      unfold fold
      split
      · rename_i q event hfold
        split at hfold
        · rename_i hconstant
          exact Or.inl (hdirect (f := .absorbed q [event])
            (foldConstant?_absorbed ⟨hoptimizer, hconstant⟩ hfold))
        · contradiction
      · simp only [hlinear.2, hbinary, hname, Bool.and_self, if_true]
        exact settled_foldDifference hsteady harity hle hlinear hbinary hname
    · refine Or.inl (hdirect (fold_explained _ hoptimizer hsteady.stamps ?_))
      exact fun hlinear hbinary hname => hsub ⟨hlinear, hbinary, hname⟩
  · exact Or.inl (hdirect (f := .kept p c []) ⟨rfl, rfl⟩)

end Program

end StackCode
