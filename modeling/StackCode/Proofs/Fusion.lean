import StackCode.Proofs.Operations

/-!
# What fusion can do

The fusion pass offers each call to the one stored before it. A fused call comes from one of the
rules for pairs of operators or for powers, and stands where the second call stood.

The stamps of fused code are right exactly if every fused call takes as many slots as the two calls
it comes from. A pair of operators always does. A power does if it has one operand, which its rule
does not look at.

Names and routines of calls are only tied by convention: an operator symbol with two operands
stands for its routine, and a small power has one operand. A fused call is itself neither an operator
nor a power. Tokens keep to the convention, and so do the calls that folding makes of them.
-/

namespace StackCode

universe u

variable {α : Type u}

/-- A call that does the work of `tail` and then `next`, by one of the rules. -/
inductive FusedCall (next tail : Call α) : Call α → Prop
  | pair {r : PairRule} (hrule : r ∈ pairRules) (hnext : next.arity = 2) (htail : tail.arity = 2)
      (houter : next.name = r.outer) (hinner : tail.name = r.inner) :
      FusedCall next tail ⟨r.outer ++ r.inner, some (.builtin r.routine), 3, false⟩
  | power {r : PowerRule} (hrule : r ∈ powerRules) (hnext : next.arity = 2)
      (houter : next.name = r.outer) (hpower : tail.routine = some (.builtin r.power)) :
      FusedCall next tail ⟨r.routine.name, some (.builtin r.routine), 2, false⟩

/-- A call refers to a builtin exactly if its routine is that builtin. -/
theorem Call.uses_eq_true_iff {c : Call α} {b : Builtin} :
    c.uses b = true ↔ c.routine = some (.builtin b) := by
  unfold uses
  cases hroutine : c.routine with
  | none => simp
  | some r =>
    cases r with
    | builtin b' => simp [Routine.isBuiltin]
    | extension e => simp [Routine.isBuiltin]

/-- Two calls are fused by one of the rules only. -/
theorem fuse?_fused {next tail c : Call α} {stackPos : Int} {event : Event α}
    (hbinary : tail.binary = false) (h : fuse? next tail stackPos = some (c, event)) :
    FusedCall next tail c := by
  unfold fuse? at h
  split at h
  · contradiction
  · rename_i hnext
    have hnext : next.arity = 2 := Decidable.not_not.mp hnext
    split at h
    · rename_i d r hpair
      cases h
      unfold fusePair? at hpair
      split at hpair
      · rename_i htail
        obtain ⟨r, hfind, heq⟩ := Option.map_eq_some_iff.mp hpair
        cases heq
        have hnames := List.find?_some hfind
        simp only [Bool.and_eq_true, beq_iff_eq] at hnames
        rw [hbinary]
        exact .pair (List.mem_of_find?_eq_some hfind) hnext htail hnames.1 hnames.2
      · contradiction
    · obtain ⟨⟨d, r⟩, hpower, heq⟩ := Option.map_eq_some_iff.mp h
      cases heq
      obtain ⟨r, hfind, heq⟩ := Option.map_eq_some_iff.mp hpower
      cases heq
      have hmatch := List.find?_some hfind
      simp only [Bool.and_eq_true, beq_iff_eq] at hmatch
      rw [hbinary]
      exact .power (List.mem_of_find?_eq_some hfind) hnext hmatch.1
        (Call.uses_eq_true_iff.mp hmatch.2)

/-- Only stored calls are fused, and the fused call stands where the second one stood. -/
theorem fuseInstructions?_fused {next tail fused : Instruction α} {event : Event α}
    (h : fuseInstructions? next tail = some (fused, event)) :
    ∃ n t c, next.operation = .call n ∧ tail.operation = .call t ∧ n.binary = false ∧
      t.binary = false ∧ FusedCall n t c ∧ fused = ⟨.call c, next.stackPos⟩ := by
  unfold fuseInstructions? at h
  split at h
  · rename_i n t hnext htail
    split at h
    · contradiction
    · rename_i hbinary
      simp only [Bool.or_eq_true, not_or, Bool.not_eq_true] at hbinary
      obtain ⟨⟨c, event'⟩, hfuse, heq⟩ := Option.map_eq_some_iff.mp h
      cases heq
      exact ⟨n, t, c, hnext, htail, hbinary.1, hbinary.2, fuse?_fused hbinary.2 hfuse, rfl⟩
  · contradiction

/-- The fusion pass over instructions that are kept most recent first. -/
def fusedLatest (latest : List (Instruction α)) : List (Instruction α) :=
  latest.foldr (fun next before => fuseOnto before next) []

/-- The fusion pass goes through the instructions from the oldest to the most recent one. -/
theorem Program.substitute_latest (p : Program α) :
    p.substitute.program.latest = if p.config.optimizer then fusedLatest p.latest else p.latest := by
  unfold substitute
  split
  · exact List.foldl_reverse
  · rfl

/-- The fusion pass leaves all but the instructions alone. -/
theorem Program.substitute_frame (p : Program α) :
    p.substitute.program.config = p.config ∧ p.substitute.program.stackPos = p.stackPos ∧
      p.substitute.program.highWater = p.highWater := by
  unfold substitute
  split <;> exact ⟨rfl, rfl, rfl⟩

/-- One more instruction is stored as it is, or takes the place of the one before it. -/
theorem fuseOnto_cases (before : List (Instruction α)) (next : Instruction α) :
    fuseOnto before next = next :: before ∨
      ∃ tail rest fused event, before = tail :: rest ∧
        fuseInstructions? next tail = some (fused, event) ∧ fuseOnto before next = fused :: rest := by
  cases before with
  | nil => exact Or.inl rfl
  | cons tail rest =>
    cases hfuse : fuseInstructions? next tail with
    | none => exact Or.inl (by simp only [fuseOnto, hfuse])
    | some result =>
      obtain ⟨fused, event⟩ := result
      exact Or.inr ⟨tail, rest, fused, event, rfl, hfuse, by simp only [fuseOnto, hfuse]⟩

/-- One more instruction is the last stamp, fused or not. -/
theorem topPos_fuseOnto (before : List (Instruction α)) (next : Instruction α) :
    topPos (fuseOnto before next) = next.stackPos := by
  obtain heq | ⟨tail, rest, fused, event, rfl, hfuse, heq⟩ := fuseOnto_cases before next
  · rw [heq]
    rfl
  · obtain ⟨n, t, c, -, -, -, -, -, rfl⟩ := fuseInstructions?_fused hfuse
    rw [heq]
    rfl

/-- The fusion pass ends at the same depth. -/
theorem topPos_fusedLatest (latest : List (Instruction α)) :
    topPos (fusedLatest latest) = topPos latest := by
  cases latest with
  | nil => rfl
  | cons next rest => exact topPos_fuseOnto _ _

/-- The routine that an operator symbol stands for in a call of two operands. -/
def operatorRoutine? : String → Option Builtin
  | "+" => some .add
  | "-" => some .sub
  | "*" => some .mul
  | "/" => some .div
  | _ => none

/-- A power that fusion knows has one operand. -/
def Call.UnaryPower (c : Call α) : Prop :=
  ∀ b ∈ [Builtin.pow2, .pow3, .pow4], c.routine = some (.builtin b) → c.arity = 1

/-- The convention that ties names and operand counts to routines: an operator symbol with two
operands stands for its routine, and a power that fusion knows has one operand. -/
structure Call.Conventional (c : Call α) : Prop where
  operator : c.arity = 2 → ∀ b, operatorRoutine? c.name = some b → c.routine = some (.builtin b)
  power : c.UnaryPower

/-- Every call keeps to the convention. -/
def Operation.Conventional (o : Operation α) : Prop := ∀ c, o = .call c → c.Conventional

/-- No rule for a pair yields a power. -/
theorem pairRules_routine : ∀ r ∈ pairRules, r.routine ∉ [Builtin.pow2, .pow3, .pow4] := by decide

/-- No rule for a power yields a power, and none of their names is an operator symbol. -/
theorem powerRules_routine : ∀ r ∈ powerRules,
    r.routine ∉ [Builtin.pow2, .pow3, .pow4] ∧ operatorRoutine? r.routine.name = none := by decide

/-- The powers that fusion knows. -/
theorem powerRules_power : ∀ r ∈ powerRules, r.power ∈ [Builtin.pow2, .pow3, .pow4] := by decide

/-- No rule fuses a fused power again. -/
theorem powerRules_final : ∀ r ∈ powerRules,
    (∀ r' ∈ pairRules, r.routine.name ≠ r'.inner) ∧ ∀ r' ∈ powerRules, r.routine ≠ r'.power := by
  decide

/-- A fused call keeps to the convention. -/
theorem FusedCall.conventional {next tail c : Call α} (h : FusedCall next tail c) :
    c.Conventional := by
  cases h with
  | pair hrule _ _ _ _ =>
    refine ⟨fun harity => absurd harity (by simp), ?_⟩
    intro b hb hroutine
    cases hroutine
    exact absurd hb (pairRules_routine _ hrule)
  | power hrule _ _ _ =>
    refine ⟨fun _ b hb => ?_, ?_⟩
    · rw [(powerRules_routine _ hrule).2] at hb
      contradiction
    · intro b hb hroutine
      cases hroutine
      exact absurd hb (powerRules_routine _ hrule).1

/-- The slots that an operation takes away from the stack, its result counted in. -/
def Operation.drain : Operation α → Int
  | .value _ => -1
  | .call c => c.arity - 1
  | .assign _ => 1
  | .stop => 0

/-- The stamp of a fused call is right exactly if the call takes away what the two calls it comes
from take away. -/
theorem FusedCall.stamped_iff {next tail c : Call α} {d e : Int} {rest : List (Instruction α)}
    (h : FusedCall next tail c)
    (hstamped : Stamped (⟨.call next, d⟩ :: ⟨.call tail, e⟩ :: rest)) :
    Stamped (⟨.call c, d⟩ :: rest) ↔
      (Operation.call c).drain = (Operation.call tail).drain + (Operation.call next).drain := by
  rw [Stamped.call_cons_iff, Stamped.call_cons_iff] at hstamped
  obtain ⟨⟨hrest, -, -, hle, rfl⟩, -, -, hfits, rfl⟩ := hstamped
  change next.arity ≤ topPos rest - tail.arity + 1 at hfits
  have hshape : c.binary = false ∧ 0 ≤ c.arity := by cases h <;> simp
  rw [Stamped.call_cons_iff]
  change _ ∧ _ ∧ _ ∧ _ ∧ topPos rest - tail.arity + 1 - next.arity + 1 = topPos rest - c.arity + 1 ↔
    c.arity - 1 = tail.arity - 1 + (next.arity - 1)
  constructor
  · rintro ⟨-, -, -, -, hstamp⟩
    omega
  · intro hdrain
    exact ⟨hrest, hshape.1, hshape.2, by omega, by omega⟩

/-- Every power that fusion knows has one operand. -/
def Operation.UnaryPower (o : Operation α) : Prop := ∀ c, o = .call c → c.UnaryPower

/-- Calls that keep to the convention have powers of one operand. -/
theorem Operation.Conventional.unaryPower {o : Operation α} (h : o.Conventional) : o.UnaryPower :=
  fun c hc => (h c hc).power

/-- Fused calls are no powers. -/
theorem FusedCall.unaryPower (n t c : Call α) (h : FusedCall n t c) :
    (Operation.call c).UnaryPower := by
  rintro d ⟨⟩
  exact h.conventional.power

/-- A fused call takes away what the two calls take away that it comes from, if the first one is no
power of several operands. -/
theorem FusedCall.drain_eq {next tail c : Call α} (h : FusedCall next tail c)
    (htail : tail.UnaryPower) :
    (Operation.call c).drain = (Operation.call tail).drain + (Operation.call next).drain := by
  cases h with
  | pair _ hnext htwo _ _ =>
    change (3 : Int) - 1 = tail.arity - 1 + (next.arity - 1)
    omega
  | power hrule hnext _ hpower =>
    have hone := htail _ (powerRules_power _ hrule) hpower
    change (2 : Int) - 1 = tail.arity - 1 + (next.arity - 1)
    omega

/-- A property that all fused calls have holds after one more instruction that has it. -/
theorem fuseOnto_holds {P : Operation α → Prop}
    (hfused : ∀ n t c : Call α, FusedCall n t c → P (.call c)) {before : List (Instruction α)}
    {next : Instruction α} (hbefore : ∀ i ∈ before, P i.operation) (hnext : P next.operation) :
    ∀ i ∈ fuseOnto before next, P i.operation := by
  obtain heq | ⟨tail, rest, fused, event, rfl, hfuse, heq⟩ := fuseOnto_cases before next
  · rw [heq]
    exact List.forall_mem_cons.mpr ⟨hnext, hbefore⟩
  · rw [heq]
    obtain ⟨n, t, c, -, -, -, -, hcall, rfl⟩ := fuseInstructions?_fused hfuse
    exact List.forall_mem_cons.mpr ⟨hfused n t c hcall, (List.forall_mem_cons.mp hbefore).2⟩

/-- A property that all fused calls have is kept by the fusion pass. -/
theorem fusedLatest_holds {P : Operation α → Prop}
    (hfused : ∀ n t c : Call α, FusedCall n t c → P (.call c)) {latest : List (Instruction α)}
    (h : ∀ i ∈ latest, P i.operation) : ∀ i ∈ fusedLatest latest, P i.operation := by
  induction latest with
  | nil => exact h
  | cons next rest ih =>
    obtain ⟨hnext, hrest⟩ := List.forall_mem_cons.mp h
    exact fuseOnto_holds hfused (ih hrest) hnext

/-- Fused calls keep to the convention, as an operation. -/
theorem FusedCall.conventional_call (n t c : Call α) (h : FusedCall n t c) :
    (Operation.call c).Conventional := by
  rintro d ⟨⟩
  exact h.conventional

/-- One more instruction is fused evenly: what is fused takes away what the two instructions take
away that it comes from. -/
def FusesEvenlyOnto (before : List (Instruction α)) (next : Instruction α) : Prop :=
  ∀ tail ∈ before.head?, ∀ fused ∈ fuseInstructions? next tail,
    fused.1.operation.drain = tail.operation.drain + next.operation.drain

/-- The fusion pass fuses every instruction evenly. -/
def FusesEvenly : List (Instruction α) → Prop
  | [] => True
  | next :: rest => FusesEvenlyOnto (fusedLatest rest) next ∧ FusesEvenly rest

/-- Powers of one operand are fused evenly. -/
theorem fusesEvenly_of_unaryPower {latest : List (Instruction α)}
    (h : ∀ i ∈ latest, i.operation.UnaryPower) : FusesEvenly latest := by
  induction latest with
  | nil => exact trivial
  | cons next rest ih =>
    obtain ⟨-, hrest⟩ := List.forall_mem_cons.mp h
    refine ⟨?_, ih hrest⟩
    rintro tail htail ⟨fused, event⟩ hfuse
    obtain ⟨n, t, c, hn, ht, -, -, hcall, rfl⟩ := fuseInstructions?_fused hfuse
    have hunary := fusedLatest_holds FusedCall.unaryPower hrest tail (List.mem_of_mem_head? htail)
    rw [hn, ht]
    exact hcall.drain_eq (hunary t ht)

/-- One more instruction keeps the stamps right if it is fused evenly. -/
theorem fuseOnto_stamped {before : List (Instruction α)} {next : Instruction α}
    (heven : FusesEvenlyOnto before next) (h : Stamped (next :: before)) :
    Stamped (fuseOnto before next) := by
  obtain heq | ⟨tail, rest, fused, event, rfl, hfuse, heq⟩ := fuseOnto_cases before next
  · rw [heq]
    exact h
  · rw [heq]
    have hdrain := heven tail rfl _ hfuse
    obtain ⟨n, t, c, hnext, htail, -, -, hcall, rfl⟩ := fuseInstructions?_fused hfuse
    obtain ⟨next, d⟩ := next
    obtain ⟨tail, e⟩ := tail
    cases hnext
    cases htail
    exact (hcall.stamped_iff h).mpr hdrain

/-- The stamps after one more instruction were there before, or are its own. -/
theorem fuseOnto_stackPos {before : List (Instruction α)} {next i : Instruction α}
    (hi : i ∈ fuseOnto before next) : ∃ j ∈ next :: before, i.stackPos = j.stackPos := by
  obtain heq | ⟨tail, rest, fused, event, rfl, hfuse, heq⟩ := fuseOnto_cases before next
  · rw [heq] at hi
    exact ⟨i, hi, rfl⟩
  · rw [heq] at hi
    obtain ⟨n, t, c, -, -, -, -, -, rfl⟩ := fuseInstructions?_fused hfuse
    rcases List.mem_cons.mp hi with rfl | hi
    · exact ⟨next, List.mem_cons_self, rfl⟩
    · exact ⟨i, List.mem_cons_of_mem _ (List.mem_cons_of_mem _ hi), rfl⟩

/-- One more instruction may follow the fused instructions as it followed the others. -/
theorem stamped_cons_fusedLatest {next : Instruction α} {rest : List (Instruction α)}
    (h : Stamped (next :: rest)) (hfused : Stamped (fusedLatest rest)) :
    Stamped (next :: fusedLatest rest) := by
  obtain _ | ⟨-, hstorable, hdepth⟩ := h
  rw [← topPos_fusedLatest] at hdepth
  exact .cons hfused hstorable hdepth

/-- The fusion pass keeps the stamps right if it fuses evenly. -/
theorem fusedLatest_stamped {latest : List (Instruction α)} (heven : FusesEvenly latest)
    (h : Stamped latest) : Stamped (fusedLatest latest) := by
  induction latest with
  | nil => exact .nil
  | cons next rest ih =>
    exact fuseOnto_stamped heven.1 (stamped_cons_fusedLatest h (ih heven.2 h.tail))

/-- Storing or fusing an instruction adds at most one. -/
theorem fuseOnto_length_le (before : List (Instruction α)) (next : Instruction α) :
    (fuseOnto before next).length ≤ before.length + 1 := by
  obtain heq | ⟨tail, rest, fused, event, rfl, -, heq⟩ := fuseOnto_cases before next
  · simp [heq]
  · simp [heq]

/-- The fusion pass adds no instruction. -/
theorem fusedLatest_length_le (latest : List (Instruction α)) :
    (fusedLatest latest).length ≤ latest.length := by
  induction latest with
  | nil => exact Nat.le_refl 0
  | cons next rest ih => exact Nat.le_trans (fuseOnto_length_le _ next) (Nat.succ_le_succ ih)

/-- The stamps after the fusion pass were there before it. -/
theorem fusedLatest_stackPos {latest : List (Instruction α)} {i : Instruction α}
    (hi : i ∈ fusedLatest latest) : ∃ j ∈ latest, i.stackPos = j.stackPos := by
  induction latest generalizing i with
  | nil => exact absurd hi List.not_mem_nil
  | cons next rest ih =>
    obtain ⟨j, hj, hstamp⟩ := fuseOnto_stackPos hi
    rcases List.mem_cons.mp hj with rfl | hj
    · exact ⟨j, List.mem_cons_self, hstamp⟩
    · obtain ⟨k, hk, hsame⟩ := ih hj
      exact ⟨k, List.mem_cons_of_mem _ hk, hstamp.trans hsame⟩

/-- The fusion pass keeps the program covered. -/
theorem Program.Covered.substitute {p : Program α} (h : p.Covered) :
    p.substitute.program.Covered := by
  refine h.of_stamps p.substitute_frame.2.2 ?_
  rw [substitute_latest]
  split
  · exact fun i hi => fusedLatest_stackPos hi
  · exact fun i hi => ⟨i, hi, rfl⟩

/-- The fusion pass keeps the depth at the last stamp. -/
theorem Program.substitute_depth {p : Program α} (h : p.stackPos = topPos p.latest) :
    p.substitute.program.stackPos = topPos p.substitute.program.latest := by
  rw [p.substitute_frame.2.1, substitute_latest, h]
  split
  · exact (topPos_fusedLatest _).symm
  · rfl

/-- The fusion pass keeps the books of a program that it fuses evenly. -/
theorem Program.Booked.substitute_of_even {p : Program α} (h : p.Booked)
    (heven : p.config.optimizer = true → FusesEvenly p.latest) : p.substitute.program.Booked := by
  refine .of_covered ?_ (substitute_depth h.depth) h.isCovered.substitute
  rw [substitute_latest]
  split
  · rename_i hoptimizer
    exact fusedLatest_stamped (heven hoptimizer) h.stamped
  · exact h.stamped

/-- The fusion pass keeps the books of a program that keeps to the convention. -/
theorem Program.Booked.substitute {p : Program α} (h : p.Booked)
    (hconventional : p.Holds Operation.Conventional) : p.substitute.program.Booked :=
  h.substitute_of_even fun _ =>
    fusesEvenly_of_unaryPower fun i hi => (hconventional i hi).unaryPower

/-- Named operators stand for their routines. -/
theorem catalog_operator : ∀ entry ∈ catalog, operatorRoutine? entry.name = none ∨
    operatorRoutine? entry.name = some entry.routine := by decide

/-- No named routine is a power that fusion knows. -/
theorem catalog_power : ∀ entry ∈ catalog, entry.routine ∉ [Builtin.pow2, .pow3, .pow4] := by decide

/-- A call of a named routine keeps to the convention. -/
theorem CatalogEntry.call_conventional {entry : CatalogEntry} (hentry : entry ∈ catalog)
    (arity : Nat) : (entry.call arity : Call α).Conventional where
  operator _ b hb := by
    change operatorRoutine? entry.name = some b at hb
    rcases catalog_operator entry hentry with hnone | hsome
    · rw [hnone] at hb
      contradiction
    · rw [hsome] at hb
      cases hb
      rfl
  power b hb hroutine := by
    cases hroutine
    exact absurd hb (catalog_power entry hentry)

section

variable [Arithmetic α]

/-- Folding keeps to the convention. -/
theorem foldClosed_conventional (config : Config) :
    FoldClosed config (Operation.Conventional : Operation α → Prop) := by
  refine foldClosed_calls (fun c h binary => ⟨h.operator, h.power⟩) (fun _ n b _ => ?_) fun _ c => ?_
  · exact ⟨fun harity => absurd harity (by simp), fun _ _ _ => rfl⟩
  · refine ⟨fun _ b hb => ?_, fun b hb hroutine => ?_⟩
    · cases hb
      rfl
    · cases hroutine
      exact absurd hb (by decide)

/-- Tokens keep to the convention. -/
theorem Token.Valid.conventional {t : Token α} (h : t.Valid) : t.pushed.Conventional :=
  h.pushed_calls fun _ hentry arity => CatalogEntry.call_conventional hentry arity

/-- Pushed tokens keep the operations to the convention. -/
theorem TokensPushed.conventional {p q : Program α} {tokens : List (Token α)}
    (h : TokensPushed p tokens q) (hp : p.Holds Operation.Conventional) :
    q.Holds Operation.Conventional :=
  h.holds (foldClosed_conventional _) hp fun _ hvalid => hvalid.conventional

end

end StackCode
