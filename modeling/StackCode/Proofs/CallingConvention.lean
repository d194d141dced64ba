import StackCode.Proofs.FoldingEffect

/-!
# The calling convention of named routines

A routine is called in place on the slots from its first operand on. The slots behind its operands
hold what earlier calls have left there. A routine may neither read nor write these, and it has to
leave its result in the first slot.

No rule writes any slot but the first. A rule on all its operands faults on none of them, and what
it leaves in the first slot is what it computes in a buffer of its own, so the slots behind make no
difference. The one exception is a variadic rule without operands: it has nothing to combine and
writes no slot at all, so what lies in the first slot stays there.
-/

namespace StackCode

universe u

variable {α : Type u}

namespace Rule

/-- A rule writes the first slot only. -/
theorem tail_run (rule : Rule α) (draw : α) (argc : Int) (slots : List α) :
    (rule.run draw argc slots).slots.tail = slots.tail := by
  fun_cases run <;> rfl

/-- A rule on all its operands leaves the same result in the first slot, whatever slots follow, if
it has operands or is a draw. -/
theorem Takes.run_in_place {rule : Rule α} {operands : List α} (h : rule.Takes operands.length)
    (hwrites : 0 < operands.length ∨ rule.isDraw = true) (draw : α) :
    ∃ y, ∀ spare, operands ++ spare ≠ [] →
      rule.run draw operands.length (operands ++ spare) =
        ⟨y :: (operands ++ spare).tail, none⟩ := by
  rcases hwrites with hpos | hdraw
  · obtain ⟨-, y, hrun⟩ := h.run_eq hpos
    refine ⟨y, fun spare _ => ?_⟩
    obtain ⟨slots, heq⟩ := hrun draw spare
    have htail := rule.tail_run draw operands.length (operands ++ spare)
    rw [heq, List.tail_cons] at htail
    rw [heq, htail]
  · cases rule with
    | draw =>
      have hnil : operands = [] := List.eq_nil_of_length_eq_zero (Int.ofNat_inj.mp h)
      subst hnil
      refine ⟨draw, fun spare hspare => ?_⟩
      obtain ⟨x, rest, rfl⟩ := List.exists_cons_of_ne_nil hspare
      rfl
    | unary f => contradiction
    | binary f => contradiction
    | ternary f => contradiction
    | variadic f => contradiction
    | whole f => contradiction

/-- A variadic rule without operands writes no slot. -/
theorem run_variadic_zero (f : α → α → α) (draw : α) (slots : List α) :
    (variadic f).run draw 0 slots = ⟨slots, none⟩ := by
  cases slots with
  | nil => rfl
  | cons x rest =>
    have hroom : (0 : Int) - 1 ≤ rest.length := by omega
    rw [run, if_pos hroom]
    rfl

end Rule

section

variable [Arithmetic α]

/-- A routine on all its operands can be called in place: it leaves in the first slot what it
computes in a buffer of its own, and nothing else changes. -/
theorem Routine.call_in_place {r : Routine α} {operands : List α}
    (htakes : r.rule.Takes operands.length)
    (hwrites : 0 < operands.length ∨ r.rule.isDraw = true) (draw : α) :
    ∃ x, r.apply draw operands = .ok x ∧
      ∀ slots, slots ≠ [] → slots.take operands.length = operands →
        r.call draw operands.length slots = ⟨x :: slots.tail, none⟩ := by
  obtain ⟨x, hrun⟩ := htakes.run_in_place hwrites draw
  refine ⟨x, ?_, fun slots hslots htake => ?_⟩
  · rw [apply, call, hrun [Arithmetic.zero] (by simp)]
    rfl
  · have hsplit := List.take_append_drop operands.length slots
    rw [htake] at hsplit
    have hcall := hrun (slots.drop operands.length)
    rw [hsplit] at hcall
    exact hcall hslots

namespace CatalogEntry

variable {entry : CatalogEntry}

/-- A named routine takes the operand counts that a producer may give it. -/
theorem takes_operands (hentry : entry ∈ catalog) {given : Option Nat} {n : Nat}
    (hcount : entry.operands given = .ok n) : (entry.routine.rule : Rule α).Takes n := by
  have hvalid : (Token.call entry n : Token α).Valid :=
    ⟨hentry, fun fixed hfixed => operands_fixed hcount hfixed⟩
  obtain ⟨r, hroutine, htakes⟩ := (call_sound hvalid).takes
  cases hroutine
  exact htakes

/-- A named routine that never has operands is a draw. -/
theorem isDraw_of_arity_zero (hentry : entry ∈ catalog) (harity : entry.arity = some 0) :
    (entry.routine.rule : Rule α).isDraw = true := by
  unfold catalog at hentry
  fin_cases hentry <;> first | rfl | contradiction

/-- A named routine whose operands are counted by the producer is variadic. -/
theorem exists_variadic (hentry : entry ∈ catalog) (harity : entry.arity = none) :
    ∃ f, (entry.routine.rule : Rule α) = .variadic f := by
  unfold catalog at hentry
  fin_cases hentry <;> first | exact ⟨_, rfl⟩ | contradiction

end CatalogEntry

end

/-- Named routines keep to the calling convention, a variadic one without operands apart. Let a named
routine be called with an operand count that a producer may give it, on two runs of slots that agree
in the operands and have a first slot. If the routine has operands or a fixed operand count, then it
leaves the same number in both first slots, which is its result on the operands alone; it changes no
other slot, and there is no fault. A variadic routine without operands changes no slot at all,
although its result is zero. -/
theorem named_routines_run_in_place [Arithmetic α] (entry : CatalogEntry) (hentry : entry ∈ catalog)
    (given : Option Nat) (n : Nat) (hcount : entry.operands given = .ok n) (draw : α)
    (xs ys : List α) (hxs : max n 1 ≤ xs.length) (hys : max n 1 ≤ ys.length)
    (hagree : xs.take n = ys.take n) :
    let r : Routine α := .builtin entry.routine
    (0 < n ∨ entry.arity ≠ none →
      ∃ x, r.apply draw (xs.take n) = .ok x ∧ r.call draw n xs = ⟨x :: xs.tail, none⟩ ∧
        r.call draw n ys = ⟨x :: ys.tail, none⟩) ∧
    (n = 0 → entry.arity = none →
      r.apply draw (xs.take n) = .ok Arithmetic.zero ∧ r.call draw n xs = ⟨xs, none⟩ ∧
        r.call draw n ys = ⟨ys, none⟩) := by
  intro r
  have htakes : r.rule.Takes n := CatalogEntry.takes_operands hentry hcount
  have hlength : (xs.take n).length = n := List.length_take_of_le (by omega)
  constructor
  · intro hwrites
    have hwrites : 0 < (xs.take n).length ∨ r.rule.isDraw = true := by
      rw [hlength]
      rcases Nat.eq_zero_or_pos n with hzero | hpos
      · obtain ⟨fixed, hfixed⟩ := Option.ne_none_iff_exists'.mp (hwrites.resolve_left (by omega))
        have hnone : fixed = 0 := (CatalogEntry.operands_fixed hcount hfixed).symm.trans hzero
        exact Or.inr (CatalogEntry.isDraw_of_arity_zero hentry (hnone ▸ hfixed))
      · exact Or.inl hpos
    obtain ⟨x, happly, hcall⟩ := Routine.call_in_place (hlength.symm ▸ htakes) hwrites draw
    rw [hlength] at hcall
    refine ⟨x, happly, hcall xs ?_ rfl, hcall ys ?_ hagree.symm⟩
    · exact List.ne_nil_of_length_pos (by omega)
    · exact List.ne_nil_of_length_pos (by omega)
  · intro hzero harity
    obtain ⟨f, hf⟩ := CatalogEntry.exists_variadic (α := α) hentry harity
    have hcall (slots : List α) : r.call draw 0 slots = ⟨slots, none⟩ := by
      change (entry.routine.rule : Rule α).run draw 0 slots = _
      rw [hf]
      exact Rule.run_variadic_zero f draw slots
    subst hzero
    refine ⟨?_, hcall xs, hcall ys⟩
    simp only [Routine.apply, List.take_zero, List.length_nil, List.nil_append, Int.ofNat_zero,
      hcall, List.headD_cons]

/-- The sum of two operands, with a third slot behind them and without. -/
theorem named_routines_run_in_place_sum :
    let sum : Routine Float := .builtin .sum
    ∃ x, sum.apply 0 [1, 2] = .ok x ∧ sum.call 0 2 [1, 2, 9] = ⟨[x, 2, 9], none⟩ ∧
      sum.call 0 2 [1, 2] = ⟨[x, 2], none⟩ :=
  (named_routines_run_in_place
    { name := "sum", doc := "Sum of all operands", arity := none, routine := .sum }
    (by simp [catalog]) (some 2) 2 rfl 0 [1, 2, 9] [1, 2] (by decide) (by decide) rfl).1
    (Or.inl Nat.two_pos)

/-- A producer may ask for the sum of no operands, and on two runs of slots it leaves two different
numbers in the first slot, neither of them its result. -/
theorem empty_sum_writes_no_slot :
    let sum : Routine Float := .builtin .sum
    (∃ entry ∈ catalog, entry.routine = .sum ∧ entry.operands (some 0) = .ok 0) ∧
      sum.call 0 0 [5] = ⟨[5], none⟩ ∧ sum.call 0 0 [7] = ⟨[7], none⟩ ∧ sum.apply 0 [] = .ok 0 ∧
      ((5 : Float) == 7) = false ∧ ((5 : Float) == 0) = false := by
  refine ⟨⟨{ name := "sum", doc := "Sum of all operands", arity := none, routine := .sum },
    by simp [catalog], rfl, rfl⟩, rfl, rfl, rfl, by decide +kernel, by decide +kernel⟩

end StackCode
