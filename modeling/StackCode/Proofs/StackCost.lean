import StackCode.Proofs.Acceptance
import StackCode.Proofs.Verification

/-!
# What optimizing costs

A token never adds more than one instruction, with folding or without, and fusion only takes
instructions away. So an optimized program is no longer than the plain one, which has one instruction
for each token and the end.

The plain high-water mark is the largest depth over the parts an expression begins with. Folding
raises it where a difference is carried through a sum: the negated value is pushed on top of operands
that the sum had already taken, one slot above the depth at that point. The slot is not left in use,
so however often this happens the mark exceeds the plain one by at most one slot.
-/

namespace StackCode

universe u

variable {α : Type u} [Arithmetic α]

section Pushes

variable {p q : Program α} {c : Call α} {t : Token α} {tokens : List (Token α)}

/-- An absorbed call adds no instruction. -/
theorem Absorbed.size_le (h : Absorbed p c q) : q.size ≤ p.size := by
  obtain ⟨n, v, w, pos, rest, hdrop, hlatest⟩ | ⟨e, pos, below, rest, d, hold, hlatest, -, -⟩ :=
    h.shape
  · have hlength := congrArg List.length hdrop
    simp only [List.length_drop, List.length_cons] at hlength
    simp only [Program.size, hlatest, List.length_cons]
    omega
  · simp [Program.size, hold, hlatest]

/-- A pushed call adds at most one instruction. -/
theorem Pushed.size_le (h : Pushed p c q) : q.size ≤ p.size + 1 := by
  cases h with
  | absorbed h => exact Nat.le_succ_of_le h.size_le
  | stored => exact Nat.le_refl _

/-- However a call is pushed, it adds at most one instruction: where two calls are pushed, the value
and the sum in front of it were taken out before. -/
theorem CallPushed.size_le (h : CallPushed p c q) : q.size ≤ p.size + 1 := by
  cases h with
  | direct h => exact h.size_le
  | negated _ _ _ hlatest h =>
    have hsize := h.size_le
    simp only [Program.size, hlatest, List.length_cons] at hsize ⊢
    exact hsize
  | through _ _ _ hlatest _ _ hagain h =>
    have hmid := hagain.size_le
    have hsize := h.size_le
    simp only [Program.size, Program.stored, Program.rewound, hlatest, List.length_cons]
      at hmid hsize ⊢
    omega

/-- A pushed token adds at most one instruction. -/
theorem TokenPushed.size_le (h : TokenPushed p t q) : q.size ≤ p.size + 1 := by
  cases h with
  | literal x => exact Nat.le_refl _
  | slot name source => exact Nat.le_refl _
  | call _ h => exact h.size_le
  | assign name target _ => exact Nat.le_refl _

/-- Pushed tokens add at most one instruction each. -/
theorem TokensPushed.size_le (h : TokensPushed p tokens q) : q.size ≤ p.size + tokens.length := by
  induction h with
  | nil => exact Nat.le_refl _
  | cons _ h _ ih =>
    have hsize := h.size_le
    rw [List.length_cons]
    omega

/-- Without the optimizer, pushed tokens add one instruction each. -/
theorem TokensPushed.size_eq (h : TokensPushed p tokens q) (hplain : p.config.optimizer = false) :
    q.size = p.size + tokens.length := by
  have hlength := congrArg List.length (h.plain_operations hplain)
  simp only [List.length_map, List.length_append, List.length_reverse] at hlength
  rw [Program.size, Program.size, hlength, Nat.add_comm]

/-- A call that is absorbed or stored raises the mark to the depth it leaves. -/
theorem Pushed.highWater_eq (h : Pushed p c q) (hbooked : p.Booked) :
    q.highWater = max p.highWater q.stackPos := by
  cases h with
  | absorbed h =>
    have hdepth := (h.booked hbooked).stackPos_le_highWater
    have hsame := h.frame.2.1
    omega
  | stored => rfl

/-- A pushed call raises the mark to the depth it leaves. If it is carried through a sum, the mark
covers one slot above the depth before it, too. -/
theorem CallPushed.highWater_cases (h : CallPushed p c q) (hbooked : p.Booked) :
    q.highWater = max p.highWater q.stackPos ∨
      p.config.FoldsLinear ∧ q.highWater = max (max p.highWater (p.stackPos + 1)) q.stackPos := by
  cases h with
  | direct h => exact Or.inl (h.highWater_eq hbooked)
  | negated _ _ _ hlatest h => exact Or.inl (h.highWater_eq (hbooked.replace_top hlatest _))
  | @through v _ _ _ below mid _ hlinear _ _ hlatest _ htwo hagain h =>
    obtain ⟨-, hbelow⟩ := hbooked.front_sum hlatest htwo
    obtain ⟨hmid, hsame⟩ := hagain.after_front hbooked hlatest htwo
    have hwater : mid.highWater = max (max p.highWater (topPos below + 1)) mid.stackPos :=
      hagain.highWater_eq (hbooked.below_front hlatest v.negated)
    have hlast := h.highWater_eq hmid
    exact Or.inr ⟨hlinear, by omega⟩

/-- A pushed token raises the mark as a pushed call does. -/
theorem TokenPushed.highWater_cases (h : TokenPushed p t q) (hbooked : p.Booked) :
    q.highWater = max p.highWater q.stackPos ∨
      p.config.FoldsLinear ∧ q.highWater = max (max p.highWater (p.stackPos + 1)) q.stackPos := by
  cases h with
  | literal x => exact Or.inl rfl
  | slot name source => exact Or.inl rfl
  | call _ h => exact h.highWater_cases hbooked
  | assign name target _ =>
    have hdepth := hbooked.stackPos_le_highWater
    left
    change p.highWater = max p.highWater (p.stackPos - 1)
    omega

/-- Pushed tokens raise the mark to the largest depth they lead to, or with linear folding to one
slot above it. -/
theorem TokensPushed.highWater_bounds (h : TokensPushed p tokens q) (hbooked : p.Booked) :
    let top := peak p.stackPos (tokens.map Token.operation)
    max p.highWater top ≤ q.highWater ∧ q.highWater ≤ max p.highWater (top + 1) ∧
      (¬p.config.FoldsLinear → q.highWater = max p.highWater top) := by
  induction h with
  | nil =>
    have hdepth := hbooked.stackPos_le_highWater
    simp only [List.map_nil, peak]
    omega
  | @cons p q r t rest hvalid h _ ih =>
    have hdepth := hbooked.stackPos_le_highWater
    obtain ⟨-, hnext⟩ := Operation.depth?_eq_some_iff.mp (h.depth?_eq hbooked hvalid)
    obtain ⟨hlow, hhigh, hexact⟩ := ih (h.booked hbooked)
    have htop := le_peak q.stackPos (rest.map Token.operation)
    rw [h.config_eq] at hexact
    simp only [List.map_cons, peak, hnext]
    -- The slot above the depth before a token is within one slot of the largest depth.
    obtain hstep | ⟨hlinear, hstep⟩ := h.highWater_cases hbooked
    · refine ⟨by omega, by omega, fun hplain => ?_⟩
      have := hexact hplain
      omega
    · exact ⟨by omega, by omega, fun hplain => absurd hlinear hplain⟩

end Pushes

section Depths

variable {a : Assembler α} {texts : List String} {tokens : List (Token α)} {depth d : Int}

/-- Counting the depth of tokens that follow others starts where these end. -/
theorem recognize?_append (before after : List (Token α)) :
    recognize? depth (before ++ after) =
      (recognize? depth before).bind fun d => recognize? d after := by
  induction before generalizing depth with
  | nil => rfl
  | cons t rest ih =>
    rw [List.cons_append, recognize?, recognize?, Option.bind_assoc]
    congr 1
    funext d
    exact ih

/-- The depth that tokens lead to is the pointer after their operations. -/
theorem pointer_of_recognize? (h : recognize? depth tokens = some d) :
    pointer depth (tokens.map Token.operation) = d := by
  induction tokens generalizing depth with
  | nil => exact Option.some.inj h
  | cons t rest ih =>
    obtain ⟨e, he, hrest⟩ := Option.bind_eq_some_iff.mp h
    obtain ⟨-, rfl⟩ := Operation.depth?_eq_some_iff.mp he
    exact ih hrest

/-- Texts count up to the depth that their tokens lead to. -/
theorem Assembler.Reads.counts_iff (h : a.Reads texts tokens) :
    a.Counts depth texts d ↔ recognize? depth tokens = some d := by
  induction h generalizing depth with
  | nil =>
    constructor
    · rintro ⟨⟩
      rfl
    · rintro ⟨⟩
      exact .nil
  | @cons text t texts tokens htoken hreads ih =>
    have hadmits {e : Int} : a.Admits depth text e ↔ t.operation.depth? depth = some e := by
      rw [← weigh_eq_ok_iff, weigh, htoken, ← Token.weigh_eq_ok_iff]
      rfl
    rw [recognize?, Option.bind_eq_some_iff]
    constructor
    · rintro (_ | ⟨hfirst, hrest⟩)
      exact ⟨_, hadmits.mp hfirst, ih.mp hrest⟩
    · rintro ⟨e, hfirst, hrest⟩
      exact .cons (hadmits.mpr hfirst) (ih.mpr hrest)

/-- The largest depth over the parts an accepted expression begins with is the largest pointer of its
operations. -/
theorem Assembler.Reads.isGreatest_peak (hreads : a.Reads texts tokens)
    (hdepth : recognize? depth tokens = some d) :
    IsGreatest {e | ∃ before, before <+: texts ∧ a.Counts depth before e}
      (peak depth (tokens.map Token.operation)) := by
  have hset : {e | ∃ before, before <+: texts ∧ a.Counts depth before e} =
      {e | ∃ before, before <+: tokens.map Token.operation ∧ pointer depth before = e} := by
    ext e
    constructor
    · rintro ⟨before, hbefore, hcounts⟩
      have hpart := hreads.take before.length
      rw [← List.prefix_iff_eq_take.mp hbefore] at hpart
      refine ⟨_, (List.take_prefix before.length tokens).map Token.operation, ?_⟩
      exact pointer_of_recognize? (hpart.counts_iff.mp hcounts)
    · rintro ⟨operations, hoperations, rfl⟩
      obtain ⟨before, ⟨after, rfl⟩, rfl⟩ := List.prefix_map_iff.mp hoperations
      rw [recognize?_append] at hdepth
      obtain ⟨e, he, -⟩ := Option.bind_eq_some_iff.mp hdepth
      have hpart := hreads.take before.length
      rw [List.take_left] at hpart
      refine ⟨_, List.take_prefix before.length texts, hpart.counts_iff.mpr ?_⟩
      rw [he, pointer_of_recognize? he]
  rw [hset]
  exact StackCode.isGreatest_peak depth _

end Depths

/-- The length and the stack of an assembled program, from its tokens. -/
theorem Assembler.assemble_cost {a : Assembler α} {source : String} {tokens : List (Token α)}
    (hblank : (trimChars source.toList).isEmpty = false) (hreads : a.Reads (a.tokens source) tokens)
    (hdepth : recognize? 0 tokens = some 1) :
    ∃ p, (a.assemble source).result = .ok p ∧
      p.size ≤ tokens.length + 1 ∧ (a.config.optimizer = false → p.size = tokens.length + 1) ∧
      let top := peak 0 (tokens.map Token.operation)
      1 + top ≤ p.maxStackSize ∧ p.maxStackSize ≤ 1 + top + 1 ∧
        (¬a.config.FoldsLinear → p.maxStackSize = 1 + top) := by
  obtain ⟨q, hpushed, hok⟩ := assemble_accepts hblank hreads hdepth
  have hstart : a.start.Booked := .start a.config a.draws
  have hstorable := hpushed.substitute_booked.stamped.storable
  have hwater : q.finalize.program.maxStackSize = q.highWater + 1 := by
    rw [Program.maxStackSize, (Program.finalize_eq hstorable).2.2, q.substitute_frame.2.2]
  refine ⟨q.finalize.program, hok, ?_, ?_, ?_⟩
  · have hshort := (Program.finalize_size hstorable).1
    have hsize : q.size ≤ 0 + tokens.length := hpushed.size_le
    omega
  · intro hplain
    have hsize : q.size = 0 + tokens.length := hpushed.size_eq hplain
    rw [(Program.finalize_size hstorable).2 (hpushed.config_eq ▸ hplain)]
    omega
  · intro top
    have hnonneg : 0 ≤ top := le_peak 0 _
    obtain ⟨hlow, hhigh, hexact⟩ : max 0 top ≤ q.highWater ∧ q.highWater ≤ max 0 (top + 1) ∧
        (¬a.config.FoldsLinear → q.highWater = max 0 top) := hpushed.highWater_bounds hstart
    rw [hwater]
    refine ⟨by omega, by omega, fun hlinear => ?_⟩
    have := hexact hlinear
    omega

/-- Optimizing never lengthens a program, and costs at most one slot of the stack. For every
expression that is accepted, compare what it is assembled to without the optimizer and with any
settings. The plain program needs one slot more than the largest depth over the parts the expression
begins with. The other one has no more instructions and needs as many slots or one more, and as many
if linear folding is off. -/
theorem optimizing_costs_one_slot (a : Assembler α) (source : String) (plain config : Config)
    (hplain : plain.optimizer = false) (haccepted : ∃ r, (a.assemble source).result = .ok r) :
    ∃ p q, ({ a with config := plain }.assemble source).result = .ok p ∧
      ({ a with config }.assemble source).result = .ok q ∧
      q.size ≤ p.size ∧
      (∃ d, IsGreatest {e | ∃ before, before <+: a.tokens source ∧ a.Counts 0 before e} d ∧
        p.maxStackSize = 1 + d) ∧
      p.maxStackSize ≤ q.maxStackSize ∧ q.maxStackSize ≤ p.maxStackSize + 1 ∧
      (config.linearFolding = false → q.maxStackSize = p.maxStackSize) := by
  obtain ⟨r, hr⟩ := haccepted
  obtain ⟨hblank, tokens, -, hreads, hdepth, -⟩ := Assembler.assemble_pushed hr
  obtain ⟨p, hp, -, hlength, -, -, hstack⟩ :=
    Assembler.assemble_cost (a := { a with config := plain }) hblank hreads hdepth
  obtain ⟨q, hq, hshort, -, hlow, hhigh, hexact⟩ :=
    Assembler.assemble_cost (a := { a with config }) hblank hreads hdepth
  have hstack := hstack (by simp [Config.FoldsLinear, hplain])
  refine ⟨p, q, hp, hq, hlength hplain ▸ hshort, ⟨_, hreads.isGreatest_peak hdepth, hstack⟩, ?_⟩
  rw [hstack]
  refine ⟨hlow, hhigh, fun hlinear => hexact ?_⟩
  simp [Config.FoldsLinear, hlinear]

/-- A difference that is carried through a sum of two variables does cost one slot more. -/
theorem optimizing_costs_one_slot_difference :
    ∃ p q, ((pairAssembler { optimizer := false }).assemble "x,y,+,2,-").result =
        .ok p ∧
      ((pairAssembler { linearFolding := true }).assemble "x,y,+,2,-").result =
        .ok q ∧
      q.size ≤ p.size ∧ q.maxStackSize ≤ p.maxStackSize + 1 ∧
      p.maxStackSize = 3 ∧ q.maxStackSize = 4 := by
  have htokens (config : Config) : (pairAssembler config).tokens "x,y,+,2,-" =
      ["x", "y", "+", "2", "-"] := by cbv
  have hblank : (trimChars "x,y,+,2,-".toList).isEmpty = false := by cbv
  have hplain := Assembler.assemble_eq (a := pairAssembler { optimizer := false })
    hblank (htokens _) rfl rfl
  have hlinear := Assembler.assemble_eq
    (a := pairAssembler { linearFolding := true }) hblank (htokens _) rfl rfl
  have haccepted := Assembler.assemble_eq (a := pairAssembler {}) hblank (htokens _) rfl rfl
  obtain ⟨p, q, hp, hq, hsize, -, -, hle, -⟩ := optimizing_costs_one_slot (pairAssembler {})
    "x,y,+,2,-" { optimizer := false } { linearFolding := true } rfl ⟨_, haccepted⟩
  have hthree : p.maxStackSize = 3 := by
    rw [Except.ok.inj (hp.symm.trans hplain)]
    decide +kernel
  have hfour : q.maxStackSize = 4 := by
    rw [Except.ok.inj (hq.symm.trans hlinear)]
    decide +kernel
  exact ⟨p, q, hp, hq, hsize, hle, hthree, hfour⟩

end StackCode
