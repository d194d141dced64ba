import StackCode.Proofs.AffineFolding
import StackCode.Proofs.OwnRoutines

/-!
# Calls that are taken for operators

Fusion and linear folding know operators by their names. Any call that they take for an operator is
dropped after some pushes, whatever routine it refers to. Linear folding absorbs it if a variable
and the literal two are in front of it, for each of the four names that it knows. If it is stored,
then fusion drops it together with a call after it that makes a pair of operators with it.

So the names that a producer has to avoid for the calls of its own routines are exactly those that
are taken for operators.
-/

namespace StackCode

universe u

variable {α : Type u}

/-- Every operator of fusion is the first of a pair that is fused. -/
theorem exists_pairRule : ∀ name ∈ ["+", "-", "*", "/"], ∃ r ∈ pairRules, r.inner = name := by
  decide

/-- A pair of operators is fused to a call of a builtin routine. -/
theorem countOwn_fuseOnto_pair {r : PairRule} (hrule : r ∈ pairRules) (next tail : Call α)
    (hnext : next.arity = 2 ∧ next.name = r.outer ∧ next.binary = false)
    (htail : tail.arity = 2 ∧ tail.name = r.inner ∧ tail.binary = false) (above pos : Int)
    (rest : List (Instruction α)) (id : Nat) :
    countOwn id (fuseOnto (⟨.call tail, pos⟩ :: rest) ⟨.call next, above⟩) = countOwn id rest := by
  have hfound : (pairRules.find? fun s => next.name == s.outer && tail.name == s.inner).isSome :=
    List.find?_isSome.mpr ⟨r, hrule, by simp [hnext, htail]⟩
  obtain ⟨s, hs⟩ := Option.isSome_iff_exists.mp hfound
  have hfuse : fuseOnto (⟨.call tail, pos⟩ :: rest) ⟨.call next, above⟩ =
      ⟨.call ⟨s.outer ++ s.inner, some (.builtin s.routine), 3, false⟩, above⟩ :: rest := by
    simp [fuseOnto, fuseInstructions?, fuse?, fusePair?, hnext.1, hnext.2.2, htail.1, htail.2.2, hs]
  rw [hfuse]
  exact countOwn_cons_call _ _ _

/-- The fusion pass drops a pair of operators after a value. The value keeps the pair from being
fused with what was stored before. -/
theorem countOwn_fusedLatest_pair {r : PairRule} (hrule : r ∈ pairRules) (next tail : Call α)
    (hnext : next.arity = 2 ∧ next.name = r.outer ∧ next.binary = false)
    (htail : tail.arity = 2 ∧ tail.name = r.inner ∧ tail.binary = false) (v : Value α)
    (above pos under : Int) (rest : List (Instruction α)) (id : Nat) :
    countOwn id (fusedLatest
      (⟨.call next, above⟩ :: ⟨.call tail, pos⟩ :: ⟨.value v, under⟩ :: rest)) ≤
      countOwn id rest := by
  have hvalue : fusedLatest (⟨.value v, under⟩ :: rest) =
      ⟨.value v, under⟩ :: fusedLatest rest := by
    change fuseOnto (fusedLatest rest) _ = _
    cases fusedLatest rest <;> rfl
  have hcall : fusedLatest (⟨.call tail, pos⟩ :: ⟨.value v, under⟩ :: rest) =
      ⟨.call tail, pos⟩ :: ⟨.value v, under⟩ :: fusedLatest rest := by
    change fuseOnto (fusedLatest (_ :: rest)) _ = _
    rw [hvalue]
    rfl
  change countOwn id (fuseOnto (fusedLatest (_ :: _ :: rest)) _) ≤ _
  rw [hcall, countOwn_fuseOnto_pair hrule next tail hnext htail, countOwn_cons_value]
  exact (countOwn_fusedLatest id rest).1

section

variable [Arithmetic α]

/-- Some pushes drop the call: it is the only call of the routine that they push, it is not refused,
and the sealed program has no more calls of the routine than were stored before. -/
def Program.Drops (p : Program α) (id : Nat) (c : Call α) : Prop :=
  ∃ actions : List (Action α), (∀ a ∈ actions, a.isPush = true) ∧
    (p.accepted actions).filter (Call.usesOwn id) = [c] ∧
    countOwn id (p.after actions).finalize.program.code ≤ countOwn id p.latest

/-- The calls of actions that follow others are accepted after them. -/
theorem Program.accepted_append (p : Program α) (before after : List (Action α)) :
    p.accepted (before ++ after) = p.accepted before ++ (p.after before).accepted after := by
  induction before generalizing p with
  | nil => rfl
  | cons a rest ih =>
    rw [List.cons_append, accepted, accepted, ih, List.append_assoc]
    rfl

/-- Values that are pushed add a slot each and no call. -/
theorem Program.Booked.after_values {p : Program α} (hbooked : p.Booked)
    (values : List (Value α)) (id : Nat) :
    (p.after (values.map .pushValue)).stackPos = p.stackPos + values.length ∧
      countOwn id (p.after (values.map .pushValue)).latest = countOwn id p.latest ∧
      p.accepted (values.map .pushValue) = [] := by
  induction values generalizing p with
  | nil => exact ⟨(Int.add_zero _).symm, rfl, rfl⟩
  | cons v rest ih =>
    obtain ⟨hdepth, hcount, haccepted⟩ := ih (hbooked.pushValue v)
    rw [p.pushValue_eq hbooked.isSteady] at hdepth hcount
    change (p.pushValue v).accepted (rest.map .pushValue) = [] at haccepted
    have hafter : p.after ((v :: rest).map .pushValue) =
        (p.stored (.value v) (p.stackPos + 1)).after (rest.map .pushValue) := by
      rw [← p.pushValue_eq hbooked.isSteady]
      rfl
    rw [hafter, hdepth, hcount]
    refine ⟨?_, countOwn_cons_value _ _ _, haccepted⟩
    simp only [Program.stored, List.length_cons]
    omega

/-- A call that is dropped after some values is dropped. -/
theorem Program.Booked.drops_of_values {p : Program α} (hbooked : p.Booked)
    (values : List (Value α)) {id : Nat} {c : Call α}
    (h : (p.after (values.map .pushValue)).Drops id c) : p.Drops id c := by
  obtain ⟨-, hcount, haccepted⟩ := hbooked.after_values values id
  obtain ⟨actions, hpush, hcall, hdropped⟩ := h
  refine ⟨values.map .pushValue ++ actions, ?_, ?_, ?_⟩
  · rw [List.forall_mem_append]
    refine ⟨fun a ha => ?_, hpush⟩
    obtain ⟨v, -, rfl⟩ := List.mem_map.mp ha
    rfl
  · rw [accepted_append, haccepted]
    exact hcall
  · rw [Program.after, List.foldl_append, ← hcount]
    exact hdropped

/-- Without constant folding, a call that linear folding does not take for an operator is stored. -/
theorem CallPushed.eq_stored_of_unnamed {p q : Program α} {c : Call α} (h : CallPushed p c q)
    (hconstant : p.config.constantFolding = false) (hname : ¬c.FoldsByName p.config) :
    q = p.stored (.call { c with binary := false }) (p.stackPos - c.arity + 1) := by
  cases h with
  | direct h =>
    cases h with
    | absorbed h => exact absurd (h.foldsByName hconstant) hname
    | stored => rfl
  | negated hlinear hbinary hminus _ _ =>
    exact absurd ⟨hlinear, hbinary, by simp [hminus]⟩ hname
  | through hlinear hbinary hminus _ _ _ _ _ =>
    exact absurd ⟨hlinear, hbinary, by simp [hminus]⟩ hname

/-- Without constant folding, a call that finds its operands and is not taken for an operator by
linear folding is accepted and stored. -/
theorem Program.Booked.pushCall_stored {p : Program α} {c : Call α} (hbooked : p.Booked)
    (hconstant : p.config.constantFolding = false) (hname : ¬c.FoldsByName p.config)
    (harity : 0 ≤ c.arity) (hroom : c.arity ≤ p.stackPos) :
    Action.accepted? p (.pushCall c) = some c ∧ (p.pushCall c).program =
      p.stored (.call { c with binary := false }) (p.stackPos - c.arity + 1) := by
  obtain ⟨hnone, hpushed⟩ := hbooked.pushCall_pushed harity hroom
  exact ⟨if_pos (by rw [hnone]; rfl), hpushed.eq_stored_of_unnamed hconstant hname⟩

/-- Fusion drops a call that it takes for an operator and that was stored: it is fused with the call
after it. -/
theorem Program.Booked.drops_of_fusesByName {p : Program α} {c : Call α} (hbooked : p.Booked)
    (hconstant : p.config.constantFolding = false) (hname : c.FusesByName p.config)
    (hfolds : ¬c.FoldsByName p.config) (hroom : c.arity ≤ p.stackPos) {id : Nat}
    (hown : c.usesOwn id = true) : p.Drops id c := by
  obtain ⟨hoptimizer, htwo, hsymbol⟩ := hname
  obtain ⟨r, hrule, hinner⟩ := exists_pairRule c.name hsymbol
  let v : Value α := .literal Arithmetic.zero
  let outer : Call α := ⟨r.outer, some (.builtin .add), 2, false⟩
  let q := p.stored (.value v) (p.stackPos + 1)
  have hvalue : p.pushValue v = q := pushValue_eq hbooked.isSteady v
  have hq : q.Booked := hvalue ▸ hbooked.pushValue v
  let s := q.stored (.call { c with binary := false }) (q.stackPos - c.arity + 1)
  have hqroom : c.arity ≤ q.stackPos := Int.le_trans hroom (Int.le_add_one (Int.le_refl _))
  obtain ⟨hcall, hstored⟩ := hq.pushCall_stored hconstant hfolds (by omega) hqroom
  change (q.pushCall c).program = s at hstored
  have hs : s.Booked := hstored ▸ hq.pushCall c
  have hsroom : outer.arity ≤ s.stackPos := by
    change 2 ≤ p.stackPos + 1 - c.arity + 1
    omega
  obtain ⟨houter, houterStored⟩ := hs.pushCall_stored hconstant
    (fun hbinary => absurd hbinary.2.1 Bool.false_ne_true) (by omega : (0 : Int) ≤ 2) hsroom
  refine ⟨[.pushValue v, .pushCall c, .pushCall outer],
    by simp [Action.isPush, Action.pushed?], ?_, ?_⟩
  · change ((Action.accepted? (p.pushValue v) (.pushCall c)).toList ++
      ((Action.accepted? ((p.pushValue v).pushCall c).program (.pushCall outer)).toList ++
        [])).filter _ = _
    rw [hvalue, hcall, hstored, houter]
    exact List.filter_cons_of_pos hown
  · change countOwn id
      (((p.pushValue v).pushCall c).program.pushCall outer).program.finalize.program.code ≤ _
    rw [hvalue, hstored, houterStored, countOwn_finalize_eq]
    change countOwn id (if p.config.optimizer then fusedLatest (_ :: _ :: _ :: p.latest) else _) ≤ _
    rw [if_pos hoptimizer]
    exact countOwn_fusedLatest_pair hrule outer { c with binary := false } ⟨rfl, rfl, rfl⟩
      ⟨htwo, hinner.symm, rfl⟩ v _ _ _ p.latest id

end

/-- A call that linear folding takes for an operator is absorbed by a variable and the literal
two. -/
theorem Program.fold_named {p : Program Float} {c : Call Float}
    (hconstant : p.config.constantFolding = false) (hname : c.FoldsByName p.config)
    (push : Program Float → Call Float → Step Float) {top pos : Int}
    {rest : List (Instruction Float)} (hpos : 0 ≤ pos)
    (hlatest : p.latest =
      ⟨.value (.literal 2), top⟩ :: ⟨.value (.ofSlot "x" (some "x")), pos⟩ :: rest) (id : Nat) :
    ∃ q events, fold (foldDifference push) p c = .absorbed q events ∧
      countOwn id q.latest = countOwn id rest := by
  obtain ⟨⟨-, hlinear⟩, hbinary, hsymbol⟩ := hname
  have htwo : (Value.literal (2 : Float)).isConstant = true := by decide +kernel
  have hx : (Value.ofSlot "x" (some "x") : Value Float).isConstant = false := by decide +kernel
  simp only [fold, hconstant, hlinear, hbinary, Bool.false_eq_true, if_false, Bool.and_self,
    if_true]
  simp only [List.mem_cons, List.not_mem_nil, or_false] at hsymbol
  obtain hsymbol | hsymbol | hsymbol | hsymbol := hsymbol
  · rw [hsymbol]
    exact ⟨_, _, foldSum_eq c hlatest (Or.inr (Or.inl htwo)), countOwn_cons_value _ _ _⟩
  · rw [hsymbol]
    exact ⟨_, _, foldDifference_eq push c hlatest (Or.inr (Or.inl htwo)),
      countOwn_cons_value _ _ _⟩
  · rw [hsymbol]
    exact ⟨_, _, foldProduct_eq c hlatest (by rw [htwo, hx]; rfl), countOwn_cons_value _ _ _⟩
  · rw [hsymbol]
    have hexponent : Arithmetic.smallExponent? (Value.literal (2 : Float)).offset = some 2 := by
      decide +kernel
    have hroom :
        0 ≤ (p.rewound (⟨.value (.ofSlot "x" (some "x")), pos⟩ :: rest)).stackPos := hpos
    simp only [foldPower, hlatest, htwo, hexponent, Builtin.ofExponent?, appendRaw_eq hroom]
    exact ⟨_, _, rfl, by simp [rewound, Call.usesOwn]⟩

/-- Linear folding drops a call that it takes for an operator: a variable and the literal two in
front of it absorb it. -/
theorem Program.Booked.drops_of_foldsByName {p : Program Float} {c : Call Float}
    (hbooked : p.Booked) (hconstant : p.config.constantFolding = false)
    (hname : c.FoldsByName p.config) (harity : 0 ≤ c.arity) (hroom : c.arity ≤ p.stackPos)
    {id : Nat} (hown : c.usesOwn id = true) : p.Drops id c := by
  let x : Value Float := .ofSlot "x" (some "x")
  let q := (p.pushValue x).pushValue (.literal 2)
  have hq : q = (p.stored (.value x) (p.stackPos + 1)).stored (.value (.literal 2))
      (p.stackPos + 1 + 1) := by
    have hsteady := (hbooked.pushValue x).isSteady
    change (p.pushValue x).pushValue (.literal 2) = _
    rw [pushValue_eq hsteady, pushValue_eq hbooked.isSteady]
    rfl
  have hconfig : q.config = p.config := by rw [hq]; rfl
  have hdepth : q.stackPos = p.stackPos + 1 + 1 := by rw [hq]; rfl
  have hlatest : q.latest = ⟨.value (.literal 2), p.stackPos + 1 + 1⟩ ::
      ⟨.value x, p.stackPos + 1⟩ :: p.latest := by rw [hq]; rfl
  obtain ⟨r, events, hfold, hcount⟩ := fold_named (p := q) (hconfig ▸ hconstant) (hconfig ▸ hname)
    pushAgain (by omega) hlatest id
  have hpush : q.pushCall c = { program := r, events } := by
    rw [Program.pushCall, pushCallWith_eq harity (by omega), hconfig, if_pos hname.1.1, hfold]
    rfl
  refine ⟨[.pushValue x, .pushValue (.literal 2), .pushCall c],
    by simp [Action.isPush, Action.pushed?], ?_, ?_⟩
  · change ((Action.accepted? q (.pushCall c)).toList ++ []).filter _ = [c]
    rw [Action.accepted?, hpush]
    exact List.filter_cons_of_pos hown
  · change countOwn id (q.pushCall c).program.finalize.program.code ≤ _
    rw [hpush, ← hcount]
    exact (r.countOwn_finalize id).1

/-- The condition on names is exact: any call of a producer's routine that fusion or linear folding
takes for an operator is dropped after some pushes to an empty program. -/
theorem named_own_routine_dropped (config : Config) (hconstant : config.constantFolding = false)
    (draws : Nat → Float) (id : Nat) (c : Call Float) (hown : c.usesOwn id = true)
    (harity : 0 ≤ c.arity) (hname : c.FusesByName config ∨ c.FoldsByName config) :
    ({ config, draws } : Program Float).Drops id c := by
  let start : Program Float := { config, draws }
  let values : List (Value Float) := List.replicate c.arity.toNat (.literal 0)
  have hstart : start.Booked := .start config draws
  have hedits : ∀ a ∈ values.map Action.pushValue, a.isEdit = true := by
    intro a ha
    obtain ⟨v, -, rfl⟩ := List.mem_map.mp ha
    rfl
  have hconfig : (start.after (values.map .pushValue)).config = config := hstart.config_after hedits
  have hroom : c.arity ≤ (start.after (values.map .pushValue)).stackPos := by
    rw [(hstart.after_values values id).1, List.length_replicate, Int.toNat_of_nonneg harity]
    exact Int.le_add_of_nonneg_left (Int.le_refl 0)
  refine hstart.drops_of_values values ?_
  by_cases hfolds : c.FoldsByName config
  · exact (hstart.after hedits).drops_of_foldsByName (hconfig ▸ hconstant) (hconfig ▸ hfolds) harity
      hroom hown
  · exact (hstart.after hedits).drops_of_fusesByName (hconfig ▸ hconstant)
      (hconfig ▸ hname.resolve_right hfolds) (hconfig ▸ hfolds) hroom hown

end StackCode
