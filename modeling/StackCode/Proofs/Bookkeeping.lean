import StackCode.Program.Finalize
import StackCode.Arithmetic.Binary64
import StackCode.Proofs.Coverage

/-!
# Exact depth bookkeeping

While a program is built, every stamp is the simulated depth after its instruction, the depth of
the program is the last of them, and the high-water mark covers all. Each way of pushing a call
keeps these facts, whatever the name, routine and operand count of the call: a folding rule returns
to a stamp that was right, and the call that is stored in the end still finds its operands.
-/

namespace StackCode

universe u

variable {α : Type u}

namespace Program

/-- The books of a program are right: its stamps are the simulated depths, its depth is the last
of them, and its high-water mark covers them. -/
structure Booked (p : Program α) : Prop where
  stamped : Stamped p.latest
  depth : p.stackPos = topPos p.latest
  nonneg : 0 ≤ p.highWater
  covered : ∀ i ∈ p.latest, i.stackPos ≤ p.highWater

namespace Booked

variable {p : Program α}

/-- Right stamps that are covered make right books, if the depth is the last of them. -/
theorem of_covered (hstamped : Stamped p.latest) (hdepth : p.stackPos = topPos p.latest)
    (hcovered : p.Covered) : p.Booked := ⟨hstamped, hdepth, hcovered.nonneg, hcovered.covers⟩

/-- The books of an empty program are right. -/
theorem start (config : Config) (draws : Nat → α) : Booked { config, draws } :=
  .of_covered .nil rfl (.start config draws)

/-- Right books are steady. -/
theorem isSteady (h : p.Booked) : p.IsSteady := ⟨h.stamped.steady, h.depth⟩

/-- Right books are covered. -/
theorem isCovered (h : p.Booked) : p.Covered := ⟨h.nonneg, h.covered⟩

/-- Removing the most recent instructions keeps the books. -/
theorem rewound_drop (h : p.Booked) (n : Nat) : (p.rewound (p.latest.drop n)).Booked :=
  .of_covered (h.stamped.drop n) rfl (h.isCovered.rewound_drop n)

/-- Storing an operation at the depth after it keeps the books. -/
theorem stored (h : p.Booked) {o : Operation α} {d : Int} (hstorable : o.Storable)
    (hdepth : o.depth? p.stackPos = some d) : (p.stored o d).Booked := by
  rw [h.depth] at hdepth
  exact .of_covered (.cons h.stamped hstorable hdepth) rfl (h.isCovered.stored o d)

/-- Storing a call that finds its operands keeps the books. -/
theorem stored_call (h : p.Booked) {c : Call α} (harity : 0 ≤ c.arity) (hle : c.arity ≤ p.stackPos) :
    (p.stored (.call { c with binary := false }) (p.stackPos - c.arity + 1)).Booked :=
  h.stored ⟨rfl, harity⟩ (if_pos hle)

/-- Another value in the place of the value on top keeps the books. -/
theorem replace_top (h : p.Booked) {v : Value α} {pos : Int} {rest : List (Instruction α)}
    (hlatest : p.latest = ⟨.value v, pos⟩ :: rest) (w : Value α) :
    Booked { p with latest := ⟨.value w, pos⟩ :: rest } := by
  have hcovered := h.isCovered.replace_top hlatest (.value w)
  have hstamped := h.stamped
  have hdepth := h.depth
  rw [hlatest] at hstamped hdepth
  refine .of_covered ?_ hdepth hcovered
  rw [Stamped.value_cons_iff] at hstamped ⊢
  exact hstamped

/-- An addition in front of the value on top has its two operands below it, and the value is at
their depth. -/
theorem front_sum (h : p.Booked) {v : Value α} {pos above : Int} {front : Call α}
    {below : List (Instruction α)}
    (hlatest : p.latest = ⟨.value v, pos⟩ :: ⟨.call front, above⟩ :: below)
    (htwo : front.arity = 2) : 2 ≤ topPos below ∧ p.stackPos = topPos below := by
  have hstamped := h.stamped
  have hdepth := h.depth
  rw [hlatest, Stamped.value_cons_iff, Stamped.call_cons_iff] at hstamped
  rw [hlatest] at hdepth
  obtain ⟨⟨-, -, -, hle, habove⟩, hpos⟩ := hstamped
  change p.stackPos = pos at hdepth
  change pos = above + 1 at hpos
  omega

/-- With the value taken out from above the addition in front, the books are right, at one slot
more. -/
theorem below_front (h : p.Booked) {v : Value α} {pos above : Int} {front : Call α}
    {below : List (Instruction α)}
    (hlatest : p.latest = ⟨.value v, pos⟩ :: ⟨.call front, above⟩ :: below) (w : Value α) :
    ((p.rewound below).stored (.value w) (topPos below + 1)).Booked := by
  have hdrop := h.rewound_drop 2
  rw [hlatest] at hdrop
  exact hdrop.stored trivial rfl

/-- The high-water mark covers the depth. -/
theorem stackPos_le_highWater (h : p.Booked) : p.stackPos ≤ p.highWater := by
  rw [h.depth]
  exact h.isCovered.topPos_le

/-- Pushing a value keeps the books. -/
theorem pushValue (h : p.Booked) (v : Value α) : (p.pushValue v).Booked := by
  rw [pushValue_eq h.isSteady]
  exact h.stored trivial rfl

/-- Removing the last instruction keeps the books, also when there is none. -/
theorem popLast (h : p.Booked) : p.popLast.program.Booked := by
  unfold Program.popLast
  split
  · exact h
  · rename_i i rest hlatest
    have hdrop := h.rewound_drop 1
    rw [hlatest] at hdrop
    exact hdrop

/-- Emptying a program keeps the books. -/
theorem clear (p : Program α) : p.clear.Booked := ⟨.nil, rfl, Int.le_refl 0, by simp [Program.clear]⟩

end Booked

/-- An assignment that finds its operands is stored one slot lower. -/
theorem pushAssign_eq {p : Program α} {a : Assign} (htwo : 2 ≤ p.stackPos) :
    p.pushAssign (.assign a) =
      { program := { p with
          latest := ⟨.assign a, p.stackPos - 1⟩ :: p.latest
          stackPos := p.stackPos - 1 } } := by
  rw [Program.pushAssign, if_neg (by simp [Operation.kind]), if_neg (Int.not_lt.mpr htwo),
    appendRaw_eq (by change 0 ≤ p.stackPos - 1; omega)]

/-- What is pushed as an assignment is refused, or it is one and stored one slot lower. -/
theorem pushAssign_program_cases (p : Program α) (o : Operation α) :
    (p.pushAssign o).program = p ∨ ∃ a, o = .assign a ∧ 2 ≤ p.stackPos ∧
      (p.pushAssign o).program = { p with
        latest := ⟨.assign a, p.stackPos - 1⟩ :: p.latest
        stackPos := p.stackPos - 1 } := by
  cases o with
  | assign a =>
    by_cases htwo : p.stackPos < 2
    · rw [pushAssign, if_neg (by simp [Operation.kind]), if_pos htwo]
      exact Or.inl rfl
    · have htwo : 2 ≤ p.stackPos := Int.not_lt.mp htwo
      exact Or.inr ⟨a, rfl, htwo, by rw [pushAssign_eq htwo]⟩
  | value v => exact Or.inl rfl
  | call c =>
    have hkind : (Operation.call c).kind ≠ .assign := by
      cases hbinary : c.binary <;> simp [Operation.kind, hbinary]
    rw [pushAssign, if_pos hkind]
    exact Or.inl rfl
  | stop => exact Or.inl rfl

/-- Pushing an assignment keeps the books, also when it is refused. -/
theorem Booked.pushAssign {p : Program α} (h : p.Booked) (o : Operation α) :
    (p.pushAssign o).program.Booked := by
  obtain heq | ⟨a, rfl, htwo, heq⟩ := p.pushAssign_program_cases o
  · rw [heq]
    exact h
  · rw [heq]
    have hcover := h.stackPos_le_highWater
    refine .of_covered ?_ rfl (h.isCovered.lowered (.assign a) (by omega))
    rw [Stamped.assign_cons_iff, ← h.depth]
    exact ⟨h.stamped, htwo, rfl⟩

end Program

variable [Arithmetic α]

/-- Literal operands stand one slot above another, so the first of them is that much lower. -/
theorem Stamped.topPos_literals {n : Nat} {latest : List (Instruction α)} {xs : List α}
    (h : Stamped latest) (hoperands : literalOperands? n latest = some xs) :
    topPos latest = topPos (latest.drop n) + n := by
  induction n generalizing latest xs with
  | zero => simp
  | succ n ih =>
    obtain ⟨v, pos, rest, ys, rfl, -, hys, -⟩ := literalOperands?_succ hoperands
    rw [value_cons_iff] at h
    have hrest := ih h.1 hys
    change pos = topPos (rest.drop n) + ((n + 1 : Nat) : Int)
    omega

namespace Absorbed

variable {p q : Program α} {c : Call α}

/-- An absorbed call keeps the books. -/
theorem booked (h : Absorbed p c q) (hbooked : p.Booked) : q.Booked := by
  refine .of_covered ?_ h.frame.2.2 (h.covered hbooked.isCovered)
  obtain ⟨n, v, w, pos, rest, hdrop, hlatest⟩ |
    ⟨e, pos, below, rest, d, hold, hlatest, harity, hbinary⟩ := h.shape
  · have hstamped := hbooked.stamped.drop n
    rw [hdrop, Stamped.value_cons_iff] at hstamped
    rw [hlatest, Stamped.value_cons_iff]
    exact hstamped
  · have hstamped := hbooked.stamped
    rw [hold] at hstamped
    have hone := hstamped.tail.one_le_stackPos
    rw [hlatest, Stamped.call_cons_iff, harity]
    refine ⟨hstamped.tail, hbinary, by decide, hone, ?_⟩
    change below.stackPos = below.stackPos - 1 + 1
    omega

/-- An absorbed call moves the depth as a stored one does, if every operator takes two operands. -/
theorem stackPos_eq (h : Absorbed p c q) (hbooked : p.Booked)
    (htwo : c.binary = true → c.arity = 2) : q.stackPos = p.stackPos - c.arity + 1 := by
  have htop {v : Value α} {pos : Int} {i : Instruction α} {rest : List (Instruction α)}
      (hlatest : p.latest = ⟨.value v, pos⟩ :: i :: rest) (hbinary : c.binary = true) :
      i.stackPos = p.stackPos - c.arity + 1 := by
    have hstamped := hbooked.stamped
    rw [hlatest, Stamped.value_cons_iff] at hstamped
    have hpos : p.stackPos = pos := by rw [hbooked.depth, hlatest]; rfl
    have hbelow : pos = i.stackPos + 1 := hstamped.2
    have := htwo hbinary
    omega
  cases h with
  | @literals r xs first rest _ _ hpos _ hoperands hfirst =>
    change first.stackPos = p.stackPos - c.arity + 1
    have hstamped := hbooked.stamped.drop (c.arity.toNat - 1)
    have hliterals := hbooked.stamped.topPos_literals hoperands
    obtain ⟨n, hn⟩ : ∃ n, c.arity.toNat = n + 1 := ⟨_, (Nat.sub_add_cancel hpos).symm⟩
    rw [hn] at hoperands
    obtain ⟨w, pos, below, hvalue⟩ := literalOperands?_first hoperands
    rw [hn, Nat.add_sub_cancel, hvalue] at hfirst hstamped
    cases hfirst
    rw [Stamped.value_cons_iff] at hstamped
    have hrest : p.latest.drop (n + 1) = rest := by
      rw [← List.drop_drop, hvalue]
      rfl
    rw [hn, hrest, ← hbooked.depth] at hliterals
    change pos = p.stackPos - c.arity + 1
    omega
  | sum _ hbinary _ hlatest _ => exact htop hlatest hbinary
  | product _ hbinary _ hlatest _ => exact htop hlatest hbinary
  | power _ hbinary _ hlatest _ _ _ => exact htop hlatest hbinary

end Absorbed

namespace Pushed

variable {p q : Program α} {c : Call α}

/-- A pushed call that finds its operands keeps the books. -/
theorem booked (h : Pushed p c q) (hbooked : p.Booked) (harity : 0 ≤ c.arity)
    (hle : c.arity ≤ p.stackPos) : q.Booked := by
  cases h with
  | absorbed h => exact h.booked hbooked
  | stored => exact hbooked.stored_call harity hle

/-- A pushed call puts its result in place of its operands, if every operator takes two. -/
theorem stackPos_eq (h : Pushed p c q) (hbooked : p.Booked)
    (htwo : c.binary = true → c.arity = 2) : q.stackPos = p.stackPos - c.arity + 1 := by
  cases h with
  | absorbed h => exact h.stackPos_eq hbooked htwo
  | stored => rfl

end Pushed

/-- The addition in front, pushed again below the value, brings the program back to its depth. -/
theorem Pushed.after_front {p mid : Program α} (hbooked : p.Booked) {v w : Value α}
    {pos above : Int} {front : Call α} {below : List (Instruction α)}
    (hlatest : p.latest = ⟨.value v, pos⟩ :: ⟨.call front, above⟩ :: below)
    (htwo : front.arity = 2)
    (hagain : Pushed ((p.rewound below).stored (.value w) (topPos below + 1))
      { front with binary := true } mid) : mid.Booked ∧ mid.stackPos = p.stackPos := by
  obtain ⟨hoperands, hdepth⟩ := hbooked.front_sum hlatest htwo
  have hunder := hbooked.below_front hlatest w
  have hsame : mid.stackPos = topPos below + 1 - front.arity + 1 :=
    hagain.stackPos_eq hunder fun _ => htwo
  refine ⟨hagain.booked hunder ?_ ?_, ?_⟩
  · change 0 ≤ front.arity
    omega
  · change front.arity ≤ topPos below + 1
    omega
  · omega

namespace CallPushed

variable {p q : Program α} {c : Call α}

/-- However a call is pushed that finds its operands, the books stay right. -/
theorem booked (h : CallPushed p c q) (hbooked : p.Booked) (harity : 0 ≤ c.arity)
    (hle : c.arity ≤ p.stackPos) : q.Booked := by
  cases h with
  | direct h => exact h.booked hbooked harity hle
  | negated _ _ _ hlatest h => exact h.booked (hbooked.replace_top hlatest _) harity hle
  | through _ _ _ hlatest _ htwo hagain h =>
    obtain ⟨hmid, hsame⟩ := hagain.after_front hbooked hlatest htwo
    exact h.booked hmid harity (by rw [hsame]; exact hle)

/-- However a call is pushed, it puts its result in place of its operands, if every operator takes
two. -/
theorem stackPos_eq (h : CallPushed p c q) (hbooked : p.Booked)
    (htwo : c.binary = true → c.arity = 2) : q.stackPos = p.stackPos - c.arity + 1 := by
  cases h with
  | direct h => exact h.stackPos_eq hbooked htwo
  | negated _ _ _ hlatest h =>
    exact h.stackPos_eq (hbooked.replace_top hlatest _) htwo
  | through _ _ _ hlatest _ harity hagain h =>
    obtain ⟨hmid, hsame⟩ := hagain.after_front hbooked hlatest harity
    rw [h.stackPos_eq hmid htwo, hsame]
    rfl

end CallPushed

namespace Program.Booked

variable {p : Program α} {c : Call α}

/-- With right books, a call that finds its operands is never refused. -/
theorem pushCall_pushed (h : p.Booked) (harity : 0 ≤ c.arity) (hle : c.arity ≤ p.stackPos) :
    (p.pushCall c).misuse = none ∧ CallPushed p c (p.pushCall c).program := by
  obtain hpushed | ⟨v, pos, front, above, below, hlatest, -, htwo, hfew, -, -⟩ :=
    pushCall_cases h.isSteady harity hle
  · exact hpushed
  · have := (h.front_sum hlatest htwo).1
    omega

/-- Pushing a call keeps the books, also when it is refused. -/
theorem pushCall (h : p.Booked) (c : Call α) : (p.pushCall c).program.Booked := by
  obtain heq | ⟨harity, hle⟩ := p.pushCall_program_cases c
  · rw [heq]
    exact h
  · exact (h.pushCall_pushed harity hle).2.booked h harity hle

end Program.Booked

/-- What a producer can do to a program. -/
inductive Action (α : Type u) where
  | pushValue (v : Value α)
  | pushCall (c : Call α)
  | pushAssign (o : Operation α)
  | appendRaw (o : Operation α)
  | popLast
  | substitute
  | finalize
  | clear

namespace Action

/-- The program after an action, also when the action is refused. -/
def run (p : Program α) : Action α → Program α
  | .pushValue v => p.pushValue v
  | .pushCall c => (p.pushCall c).program
  | .pushAssign o => (p.pushAssign o).program
  | .appendRaw o => (p.appendRaw o).program
  | .popLast => p.popLast.program
  | .substitute => p.substitute.program
  | .finalize => p.finalize.program
  | .clear => p.clear

/-- Whether an action builds up or takes back a program, without storing an instruction raw and
before fusion. -/
def isEdit : Action α → Bool
  | .pushValue _ | .pushCall _ | .pushAssign _ | .popLast | .clear => true
  | _ => false

/-- An edit keeps the books. -/
theorem run_booked {p : Program α} (h : p.Booked) {a : Action α} (hedit : a.isEdit = true) :
    (a.run p).Booked := by
  cases a with
  | pushValue v => exact h.pushValue v
  | pushCall c => exact h.pushCall c
  | pushAssign o => exact h.pushAssign o
  | popLast => exact h.popLast
  | clear => exact .clear p
  | appendRaw o => cases hedit
  | substitute => cases hedit
  | finalize => cases hedit

end Action

/-- The program after a sequence of actions. -/
def Program.after (p : Program α) (actions : List (Action α)) : Program α :=
  actions.foldl Action.run p

/-- Any sequence of edits keeps the books. -/
theorem Program.Booked.after {p : Program α} (h : p.Booked) {actions : List (Action α)}
    (hedits : ∀ a ∈ actions, a.isEdit = true) : (p.after actions).Booked := by
  induction actions generalizing p with
  | nil => exact h
  | cons a rest ih =>
    exact ih (a.run_booked h (hedits a List.mem_cons_self))
      fun b hb => hedits b (List.mem_cons_of_mem _ hb)

/-- After any edits of an empty program, with any settings and any tokens, refused ones included,
simulating the code never underflows, the stamps are the simulated depths, the depth is the last of
them, no stored call is an operator or takes a negative number of operands, and the high-water mark
is at least every simulated depth. -/
theorem depth_books_exact (config : Config) (draws : Nat → α) (actions : List (Action α))
    (hedits : ∀ a ∈ actions, a.isEdit = true) :
    let p := ({ config, draws } : Program α).after actions
    ∃ depths, simulate? 0 p.code = some depths ∧
      p.code.map Instruction.stackPos = depths ∧
      p.stackPos = depths.getLastD 0 ∧
      (∀ i ∈ p.code, ∀ c, i.operation = .call c → c.binary = false ∧ 0 ≤ c.arity) ∧
      ∀ d ∈ 0 :: depths, d ≤ p.highWater := by
  intro p
  have h : p.Booked := (Program.Booked.start config draws).after hedits
  refine ⟨_, h.stamped.simulate?_reverse, rfl, ?_, ?_, ?_⟩
  · rw [h.depth]
    exact (getLastD_stamps _).symm
  · intro i hi c hc
    have hstorable := h.stamped.storable i (List.mem_reverse.mp hi)
    rw [hc] at hstorable
    exact hstorable
  · intro d hd
    rcases List.mem_cons.mp hd with rfl | hd
    · exact h.nonneg
    · obtain ⟨i, hi, rfl⟩ := List.mem_map.mp hd
      exact h.covered i (List.mem_reverse.mp hi)

/-- Edits with a subtraction of three operands behind an addition, and a call that is refused. -/
def oddEdits : List (Action Float) :=
  [ .pushValue (.ofSlot "x" (some "x")), .pushValue (.ofSlot "y" (some "y")),
    .pushValue (.ofSlot "z" (some "z")), .pushCall (.operator "+" (some (.builtin .add))),
    .pushValue (.literal 2), .pushCall ⟨"-", some (.builtin .sub), 3, true⟩,
    .pushCall ⟨"f", none, -1, false⟩, .popLast ]

/-- The books are exact after the odd edits, with all folding on. -/
theorem depth_books_exact_oddEdits :
    (∀ a ∈ oddEdits, a.isEdit = true) ∧
    let p := Program.after { config := ⟨true, true, true, 50⟩, draws := fun _ => (0 : Float) }
      oddEdits
    ∃ depths, simulate? 0 p.code = some depths ∧
      p.code.map Instruction.stackPos = depths ∧
      p.stackPos = depths.getLastD 0 ∧
      (∀ i ∈ p.code, ∀ c, i.operation = .call c → c.binary = false ∧ 0 ≤ c.arity) ∧
      ∀ d ∈ 0 :: depths, d ≤ p.highWater :=
  ⟨by decide, depth_books_exact _ _ oddEdits (by decide)⟩

end StackCode
