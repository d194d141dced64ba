import StackCode.Proofs.Pushes
import StackCode.Proofs.Steadiness

/-!
# Routines of the producer

A producer may push calls of routines of its own. Without constant folding, what folding and fusion
put in the place of a call is a builtin routine, so calls of the producer's routines are never made
up: there are at most as many stored as were pushed.

They may be dropped, though. Powers are known by their routine, but operators are known by their
name: fusion takes any call of two operands with the name of an operator for that operator, and
linear folding takes any operator that is pushed with such a name. If no call of the producer's
routine is named like that, then all of them are stored.
-/

namespace StackCode

universe u

variable {α : Type u}

namespace Call

/-- Whether a call refers to the producer's routine of the given number. -/
def usesOwn (id : Nat) (c : Call α) : Bool :=
  match c.routine with
  | some (.extension e) => e.id == id
  | _ => false

/-- Fusion takes the call for an operator. -/
def FusesByName (config : Config) (c : Call α) : Prop :=
  config.optimizer = true ∧ c.arity = 2 ∧ c.name ∈ ["+", "-", "*", "/"]

/-- Linear folding takes the call for an operator. -/
def FoldsByName (config : Config) (c : Call α) : Prop :=
  config.FoldsLinear ∧ c.binary = true ∧ c.name ∈ ["+", "-", "*", "^"]

instance (config : Config) (c : Call α) : Decidable (c.FusesByName config) :=
  inferInstanceAs (Decidable (_ ∧ _ ∧ _))

instance (config : Config) (c : Call α) : Decidable (c.FoldsByName config) :=
  inferInstanceAs (Decidable ((_ ∧ _) ∧ _ ∧ _))

end Call

/-- Whether an operation is a call of the producer's routine of the given number. -/
def Operation.callsOwn (id : Nat) : Operation α → Bool
  | .call c => c.usesOwn id
  | _ => false

/-- The number of calls of the producer's routine of the given number. -/
def countOwn (id : Nat) (latest : List (Instruction α)) : Nat :=
  latest.countP fun i => i.operation.callsOwn id

/-- Fusion takes no call of the producer's routine of the given number for an operator. -/
def Operation.OwnUnfused (id : Nat) (config : Config) (o : Operation α) : Prop :=
  ∀ c, o = .call c → c.usesOwn id = true → ¬c.FusesByName config

section

variable {id : Nat}

/-- Only calls are of a routine. -/
theorem Operation.callsOwn_eq_false {o : Operation α} (h : ∀ c, o ≠ .call c) :
    o.callsOwn id = false := by
  cases o with
  | call c => exact absurd rfl (h c)
  | value v => rfl
  | assign a => rfl
  | stop => rfl

/-- One more instruction counts if it is a call of the routine. -/
theorem countOwn_cons (i : Instruction α) (rest : List (Instruction α)) :
    countOwn id (i :: rest) = countOwn id rest + (i.operation.callsOwn id).toNat := by
  cases h : i.operation.callsOwn id <;> simp [countOwn, h]

@[simp] theorem countOwn_cons_value (v : Value α) (pos : Int) (rest : List (Instruction α)) :
    countOwn id (⟨.value v, pos⟩ :: rest) = countOwn id rest := countOwn_cons _ _

@[simp] theorem countOwn_cons_call (c : Call α) (pos : Int) (rest : List (Instruction α)) :
    countOwn id (⟨.call c, pos⟩ :: rest) = countOwn id rest + (c.usesOwn id).toNat :=
  countOwn_cons _ _

/-- A fused call is of a builtin routine. -/
theorem FusedCall.usesOwn_eq_false {next tail c : Call α} (h : FusedCall next tail c) :
    c.usesOwn id = false := by
  cases h with
  | pair _ _ _ _ _ => rfl
  | power _ _ _ _ => rfl

/-- The call before a fused pair is an operator by its name. -/
theorem pairRules_inner : ∀ r ∈ pairRules, r.inner ∈ ["+", "-", "*", "/"] := by decide

/-- Two calls are fused only if each is a builtin power or taken for an operator. -/
theorem FusedCall.fusesByName {next tail c : Call α} (h : FusedCall next tail c) (id : Nat)
    {config : Config} (hoptimizer : config.optimizer = true) :
    next.FusesByName config ∧ (tail.FusesByName config ∨ tail.usesOwn id = false) := by
  cases h with
  | pair hrule hnext htail houter hinner =>
    refine ⟨⟨hoptimizer, hnext, ?_⟩, Or.inl ⟨hoptimizer, htail, ?_⟩⟩
    · exact houter ▸ pairRules_outer _ hrule
    · exact hinner ▸ pairRules_inner _ hrule
  | power hrule hnext houter hpower =>
    refine ⟨⟨hoptimizer, hnext, ?_⟩, Or.inr ?_⟩
    · exact houter ▸ (powerRules_outer _ hrule).1
    · rw [Call.usesOwn, hpower]

/-- Storing one more instruction, fused or not, makes up no call of the routine, and drops none that
is not taken for an operator. -/
theorem countOwn_fuseOnto (id : Nat) (before : List (Instruction α)) (next : Instruction α) :
    countOwn id (fuseOnto before next) ≤ countOwn id (next :: before) ∧
      ∀ config : Config, config.optimizer = true → next.operation.OwnUnfused id config →
        (∀ i ∈ before, i.operation.OwnUnfused id config) →
        countOwn id (fuseOnto before next) = countOwn id (next :: before) := by
  obtain heq | ⟨tail, rest, fused, event, rfl, hfuse, heq⟩ := fuseOnto_cases before next
  · rw [heq]
    exact ⟨Nat.le_refl _, fun _ _ _ _ => rfl⟩
  · obtain ⟨n, t, c, hn, ht, -, -, hcall, rfl⟩ := fuseInstructions?_fused hfuse
    have hfused : c.usesOwn id = false := hcall.usesOwn_eq_false
    rw [heq, countOwn_cons_call, hfused, Bool.toNat_false, countOwn_cons, countOwn_cons]
    refine ⟨by omega, fun config hoptimizer hnext hbefore => ?_⟩
    obtain ⟨hnextName, htailName⟩ := hcall.fusesByName id hoptimizer
    have hnextOwn : n.usesOwn id = false :=
      Bool.eq_false_iff.mpr fun hown => hnext n hn hown hnextName
    have htailOwn : t.usesOwn id = false := by
      refine htailName.elim (fun hname => Bool.eq_false_iff.mpr fun hown => ?_) fun h => h
      exact hbefore tail List.mem_cons_self t ht hown hname
    simp [hn, ht, Operation.callsOwn, hnextOwn, htailOwn]

/-- The fusion pass makes up no call of the routine, and drops none that is not taken for an
operator. -/
theorem countOwn_fusedLatest (id : Nat) (latest : List (Instruction α)) :
    countOwn id (fusedLatest latest) ≤ countOwn id latest ∧
      ∀ config : Config, config.optimizer = true →
        (∀ i ∈ latest, i.operation.OwnUnfused id config) →
        countOwn id (fusedLatest latest) = countOwn id latest := by
  induction latest with
  | nil => exact ⟨Nat.le_refl _, fun _ _ _ => rfl⟩
  | cons next rest ih =>
    obtain ⟨hle, heq⟩ := countOwn_fuseOnto id (fusedLatest rest) next
    rw [countOwn_cons] at hle heq ⊢
    refine ⟨Nat.le_trans hle (by omega), fun config hoptimizer hall => ?_⟩
    obtain ⟨hnext, hrest⟩ := List.forall_mem_cons.mp hall
    have hfused : ∀ i ∈ fusedLatest rest, i.operation.OwnUnfused id config := by
      refine fusedLatest_holds (fun n t c hcall => ?_) hrest
      rintro d ⟨⟩ hown
      exact absurd hown (by simp [hcall.usesOwn_eq_false])
    rw [← ih.2 config hoptimizer hrest]
    exact heq config hoptimizer hnext hfused

section

variable [Arithmetic α] {p q : Program α} {c : Call α}

/-- Without constant folding, only calls that are taken for operators are absorbed. -/
theorem Absorbed.foldsByName (h : Absorbed p c q) (hconstant : p.config.constantFolding = false) :
    c.FoldsByName p.config := by
  cases h with
  | literals hfolds _ _ _ _ _ => exact absurd hfolds.2 (by simp [hconstant])
  | sum hlinear hbinary hname _ _ => exact ⟨hlinear, hbinary, by simp [hname]⟩
  | product hlinear hbinary hname _ _ => exact ⟨hlinear, hbinary, by simp [hname]⟩
  | power hlinear hbinary hname _ _ _ _ => exact ⟨hlinear, hbinary, by simp [hname]⟩

/-- Without constant folding, the values that absorb a call are all that changes. -/
theorem Absorbed.countOwn_eq (h : Absorbed p c q) (hconstant : p.config.constantFolding = false) :
    countOwn id q.latest = countOwn id p.latest := by
  cases h with
  | literals hfolds _ _ _ _ _ => exact absurd hfolds.2 (by simp [hconstant])
  | sum _ _ _ hlatest _ => simp [hlatest, Program.rewound]
  | product _ _ _ hlatest _ => simp [hlatest, Program.rewound]
  | power _ _ _ hlatest _ _ _ => simp [hlatest, Program.rewound, Call.usesOwn]

/-- A call that is pushed counts at most once, and exactly once if it is not absorbed. -/
theorem Pushed.countOwn_bounds (h : Pushed p c q) (hconstant : p.config.constantFolding = false)
    (id : Nat) :
    countOwn id p.latest ≤ countOwn id q.latest ∧
      countOwn id q.latest ≤ countOwn id p.latest + (c.usesOwn id).toNat ∧
      (¬c.FoldsByName p.config →
        countOwn id q.latest = countOwn id p.latest + (c.usesOwn id).toNat) := by
  cases h with
  | absorbed h =>
    rw [h.countOwn_eq hconstant]
    exact ⟨Nat.le_refl _, by omega, fun hname => absurd (h.foldsByName hconstant) hname⟩
  | stored =>
    have hstored : countOwn id (p.stored (.call { c with binary := false })
        (p.stackPos - c.arity + 1)).latest = countOwn id p.latest + (c.usesOwn id).toNat :=
      countOwn_cons_call _ _ _
    rw [hstored]
    exact ⟨by omega, Nat.le_refl _, fun _ => rfl⟩

/-- However a call is pushed, it counts at most once, and exactly once if no call of the routine is
taken for an operator. -/
theorem CallPushed.countOwn_bounds (h : CallPushed p c q)
    (hconstant : p.config.constantFolding = false) (id : Nat) :
    countOwn id q.latest ≤ countOwn id p.latest + (c.usesOwn id).toNat ∧
      (p.Holds (Operation.OwnUnfused id p.config) →
        (c.usesOwn id = true → ¬c.FoldsByName p.config) →
        countOwn id q.latest = countOwn id p.latest + (c.usesOwn id).toNat) := by
  have hsum : c.asSum.usesOwn id = false := rfl
  cases h with
  | direct h =>
    obtain ⟨hlower, hupper, hexact⟩ := h.countOwn_bounds hconstant id
    refine ⟨hupper, fun _ hname => ?_⟩
    cases hown : c.usesOwn id with
    | false =>
      rw [hown] at hupper
      exact Nat.le_antisymm hupper hlower
    | true => exact hown ▸ hexact (hname hown)
  | negated hlinear hbinary hname hlatest h =>
    obtain ⟨hlower, hupper, -⟩ := h.countOwn_bounds hconstant id
    rw [hsum, Bool.toNat_false] at hupper
    rw [hlatest, countOwn_cons_value]
    rw [countOwn_cons_value] at hlower hupper
    refine ⟨by omega, fun _ hkept => ?_⟩
    have hown : c.usesOwn id = false := Bool.eq_false_iff.mpr fun hown =>
      hkept hown ⟨hlinear, hbinary, by simp [hname]⟩
    rw [hown, Bool.toNat_false]
    omega
  | @through v pos above front below mid _ hlinear hbinary hname hlatest hfront harity hagain h =>
    have hmid : mid.config.constantFolding = false := by
      rw [hagain.config_eq]
      exact hconstant
    obtain ⟨hagainLower, hagainUpper, -⟩ := hagain.countOwn_bounds hconstant id
    obtain ⟨hlower, hupper, -⟩ := h.countOwn_bounds hmid id
    have hunder : countOwn id ((p.rewound below).stored (.value v.negated)
        (topPos below + 1)).latest = countOwn id below := countOwn_cons_value _ _ _
    have hretagged : Call.usesOwn id { front with binary := true } = front.usesOwn id := rfl
    rw [hsum, Bool.toNat_false] at hupper
    rw [hunder] at hagainLower hagainUpper
    rw [hretagged] at hagainUpper
    rw [hlatest, countOwn_cons_value, countOwn_cons_call]
    refine ⟨by omega, fun hstored hkept => ?_⟩
    have hfrontOwn : front.usesOwn id = false := Bool.eq_false_iff.mpr fun hown =>
      hstored ⟨.call front, above⟩ (by simp [hlatest]) front rfl hown
        ⟨hlinear.1, harity, by simp [hfront]⟩
    have hown : c.usesOwn id = false := Bool.eq_false_iff.mpr fun hown =>
      hkept hown ⟨hlinear, hbinary, by simp [hname]⟩
    rw [hfrontOwn, Bool.toNat_false] at hagainUpper ⊢
    rw [hown, Bool.toNat_false]
    omega

/-- Folding makes no call of a producer's routine. -/
theorem foldClosed_ownUnfused (id : Nat) (config : Config) :
    FoldClosed p.config (Operation.OwnUnfused id config : Operation α → Prop) :=
  foldClosed_calls (fun _ h _ => h) (fun _ _ _ _ hown => absurd hown Bool.false_ne_true)
    fun _ _ hown => absurd hown Bool.false_ne_true

/-- The call that an action pushes, if it is not refused. -/
def Action.accepted? (p : Program α) : Action α → Option (Call α)
  | .pushCall c => if (p.pushCall c).misuse.isNone then some c else none
  | _ => none

/-- The calls that actions push, without those that are refused. -/
def Program.accepted (p : Program α) : List (Action α) → List (Call α)
  | [] => []
  | a :: rest => (a.accepted? p).toList ++ (a.run p).accepted rest

/-- A push is of a call that is accepted, or it adds no call. -/
theorem Action.run_cases (hbooked : p.Booked) {a : Action α} (hpush : a.isPush = true) :
    (∃ c, a.accepted? p = some c ∧ CallPushed p c (a.run p)) ∨
      (a.accepted? p = none ∧ ((a.run p).latest = p.latest ∨
        ∃ i, (a.run p).latest = i :: p.latest ∧ ∀ c, i.operation ≠ .call c)) := by
  cases a with
  | pushValue v =>
    refine Or.inr ⟨rfl, Or.inr ⟨⟨.value v, p.stackPos + 1⟩, ?_, fun c hc => ?_⟩⟩
    · rw [run, Program.pushValue_eq hbooked.isSteady]
      rfl
    · cases hc
  | pushCall c =>
    obtain ⟨heq, hrefused⟩ | ⟨harity, hle⟩ := p.pushCall_refused_cases c
    · exact Or.inr ⟨if_neg (by simpa using hrefused), Or.inl (congrArg Program.latest heq)⟩
    · obtain ⟨hnone, hpushed⟩ := hbooked.pushCall_pushed harity hle
      exact Or.inl ⟨c, if_pos (by rw [hnone]; rfl), hpushed⟩
  | pushAssign o =>
    refine Or.inr ⟨rfl, ?_⟩
    obtain heq | ⟨_, rfl, _, heq⟩ := p.pushAssign_program_cases o
    · exact Or.inl (congrArg Program.latest heq)
    · refine Or.inr ⟨_, congrArg Program.latest heq, fun c hc => ?_⟩
      cases hc
  | appendRaw o => cases hpush
  | popLast => cases hpush
  | substitute => cases hpush
  | finalize => cases hpush
  | clear => cases hpush

/-- The calls of the routine among those that are pushed are named like no operator. -/
def OwnUnnamed (id : Nat) (config : Config) (calls : List (Call α)) : Prop :=
  ∀ c ∈ calls, c.usesOwn id = true → ¬c.FusesByName config ∧ ¬c.FoldsByName config

/-- A push makes up no call of the routine, and drops none if those that are pushed and stored are
named like no operator. -/
theorem Action.countOwn_run (hbooked : p.Booked) (hconstant : p.config.constantFolding = false)
    {a : Action α} (hpush : a.isPush = true) (id : Nat) :
    countOwn id (a.run p).latest ≤
        countOwn id p.latest + (a.accepted? p).toList.countP (Call.usesOwn id) ∧
      (p.Holds (Operation.OwnUnfused id p.config) →
        OwnUnnamed id p.config (a.accepted? p).toList →
        countOwn id (a.run p).latest =
            countOwn id p.latest + (a.accepted? p).toList.countP (Call.usesOwn id) ∧
          (a.run p).Holds (Operation.OwnUnfused id p.config)) := by
  obtain ⟨c, haccepted, hpushed⟩ | ⟨haccepted, hlatest⟩ := a.run_cases hbooked hpush
  · have hcount : (Option.some c).toList.countP (Call.usesOwn id) = (c.usesOwn id).toNat := by
      cases h : c.usesOwn id <;> simp [h]
    rw [haccepted, hcount]
    obtain ⟨hle, heq⟩ := hpushed.countOwn_bounds hconstant id
    refine ⟨hle, fun hstored hunnamed => ⟨heq hstored fun hown => ?_, ?_⟩⟩
    · exact (hunnamed c (by simp) hown).2
    · refine hpushed.holds (foldClosed_ownUnfused id p.config) hstored ?_
      rintro d ⟨⟩ hown
      exact (hunnamed c (by simp) hown).1
  · have hcount : countOwn id (a.run p).latest = countOwn id p.latest := by
      obtain heq | ⟨i, heq, hcall⟩ := hlatest
      · rw [heq]
      · rw [heq, countOwn_cons, Operation.callsOwn_eq_false hcall]
        rfl
    rw [haccepted, hcount]
    refine ⟨Nat.le_refl _, fun hstored _ => ⟨rfl, ?_⟩⟩
    obtain heq | ⟨i, heq, hcall⟩ := hlatest
    · rw [Program.Holds, heq]
      exact hstored
    · rw [Program.Holds, heq]
      exact List.forall_mem_cons.mpr ⟨fun c hc => absurd hc (hcall c), hstored⟩

/-- Pushes make up no call of the routine, and drop none if those that are pushed and stored are
named like no operator. -/
theorem Program.Booked.countOwn_after (hbooked : p.Booked)
    (hconstant : p.config.constantFolding = false) {actions : List (Action α)}
    (hpush : ∀ a ∈ actions, a.isPush = true) (id : Nat) :
    countOwn id (p.after actions).latest ≤
        countOwn id p.latest + (p.accepted actions).countP (Call.usesOwn id) ∧
      (p.Holds (Operation.OwnUnfused id p.config) → OwnUnnamed id p.config (p.accepted actions) →
        countOwn id (p.after actions).latest =
            countOwn id p.latest + (p.accepted actions).countP (Call.usesOwn id) ∧
          (p.after actions).Holds (Operation.OwnUnfused id p.config)) := by
  induction actions generalizing p with
  | nil => exact ⟨Nat.le_refl _, fun hstored _ => ⟨rfl, hstored⟩⟩
  | cons a rest ih =>
    obtain ⟨ha, hrest⟩ := List.forall_mem_cons.mp hpush
    have hedit := a.isEdit_of_isPush ha
    have hconfig : (a.run p).config = p.config := a.run_config hbooked hedit
    obtain ⟨hle, heq⟩ := a.countOwn_run hbooked hconstant ha id
    have hafter := ih (a.run_booked hbooked hedit) (hconfig ▸ hconstant) hrest
    rw [hconfig] at hafter
    have hsplit : (p.accepted (a :: rest)).countP (Call.usesOwn id) =
        (a.accepted? p).toList.countP (Call.usesOwn id) +
          ((a.run p).accepted rest).countP (Call.usesOwn id) := List.countP_append
    rw [hsplit]
    change countOwn id ((a.run p).after rest).latest ≤ _ ∧ (_ → _ →
      countOwn id ((a.run p).after rest).latest = _ ∧ ((a.run p).after rest).Holds _)
    refine ⟨by omega, fun hstored hunnamed => ?_⟩
    obtain ⟨hfirst, hothers⟩ := List.forall_mem_append.mp hunnamed
    obtain ⟨hcount, hkept⟩ := heq hstored hfirst
    obtain ⟨htotal, hend⟩ := hafter.2 hkept hothers
    exact ⟨by omega, hend⟩

end

/-- Of what sealing a program does, only fusion changes its calls. -/
theorem Program.countOwn_finalize_eq (p : Program α) (id : Nat) :
    countOwn id p.finalize.program.code =
      countOwn id (if p.config.optimizer then fusedLatest p.latest else p.latest) := by
  rw [← p.substitute_latest, countOwn, code, List.countP_reverse]
  simp only [finalize, classified, closed]
  split
  · rfl
  · exact countOwn_cons _ _

/-- Sealing a program makes up no call of the routine, and drops none if those that are stored are
named like no operator. -/
theorem Program.countOwn_finalize (p : Program α) (id : Nat) :
    countOwn id p.finalize.program.code ≤ countOwn id p.latest ∧
      (p.Holds (Operation.OwnUnfused id p.config) →
        countOwn id p.finalize.program.code = countOwn id p.latest) := by
  rw [p.countOwn_finalize_eq id]
  split
  · rename_i hoptimizer
    obtain ⟨hle, heq⟩ := countOwn_fusedLatest id p.latest
    exact ⟨hle, heq p.config hoptimizer⟩
  · exact ⟨Nat.le_refl _, fun _ => rfl⟩

end

/-- Folding and fusion make up no call of a producer's routine, and drop none that is named like no
operator. After any pushes to an empty program without constant folding, with any tokens, refused
ones included, the sealed program has at most as many calls of the routine as were pushed and not
refused. It has exactly as many if none of these has two operands and the name of an operator of
fusion, or is pushed as an operator with the name of one of linear folding while that rule is on.
With the optimizer off no name matters. -/
theorem own_routines_stored [Arithmetic α] (config : Config)
    (hconstant : config.constantFolding = false) (draws : Nat → α) (actions : List (Action α))
    (hpush : ∀ a ∈ actions, a.isPush = true) (id : Nat) :
    let start : Program α := { config, draws }
    let stored := countOwn id (start.after actions).finalize.program.code
    let pushed := (start.accepted actions).countP (Call.usesOwn id)
    stored ≤ pushed ∧
      ((∀ c ∈ start.accepted actions, c.usesOwn id = true →
        ¬c.FusesByName config ∧ ¬c.FoldsByName config) → stored = pushed) := by
  intro start stored pushed
  have hstart : start.Booked := .start config draws
  have hconfig : (start.after actions).config = config :=
    hstart.config_after fun a ha => a.isEdit_of_isPush (hpush a ha)
  obtain ⟨hle, heq⟩ := hstart.countOwn_after hconstant hpush id
  obtain ⟨hsealed, hkept⟩ := (start.after actions).countOwn_finalize id
  have hnone : countOwn id start.latest = 0 := rfl
  rw [hnone, Nat.zero_add] at hle heq
  refine ⟨Nat.le_trans hsealed hle, fun hunnamed => ?_⟩
  obtain ⟨hcount, hstored⟩ := heq (fun i hi => absurd hi List.not_mem_nil) hunnamed
  rw [hconfig] at hkept
  exact (hkept hstored).trans hcount

/-- A routine of the producer that squares its operand. -/
def ownSquare : Routine Float := .extension ⟨"f", 7, .unary fun x => x * x⟩

/-- Pushes of the routine under its own name, with three operands under the name of an addition, and
with too many operands. -/
def keptPushes : List (Action Float) :=
  [ .pushValue (.ofSlot "x" (some "x")), .pushValue (.literal 2),
    .pushCall (.operator "*" (some (.builtin .mul))), .pushCall ⟨"f", some ownSquare, 1, false⟩,
    .pushValue (.ofSlot "y" (some "y")), .pushValue (.literal 3),
    .pushCall ⟨"+", some ownSquare, 3, false⟩, .pushCall ⟨"*", some ownSquare, 2, true⟩ ]

/-- With linear folding, both calls of the routine that are not refused are stored. -/
theorem own_routines_stored_square :
    let start : Program Float := { config := { linearFolding := true }, draws := fun _ => 0 }
    (∀ a ∈ keptPushes, a.isPush = true) ∧
      (start.accepted keptPushes).countP (Call.usesOwn 7) = 2 ∧
      countOwn 7 (start.after keptPushes).finalize.program.code =
        (start.accepted keptPushes).countP (Call.usesOwn 7) := by
  have hpush : ∀ a ∈ keptPushes, a.isPush = true := by decide
  exact ⟨hpush, by decide +kernel,
    (own_routines_stored _ rfl _ keptPushes hpush 7).2 (by decide +kernel)⟩

/-- Pushes of the routine as an addition of two operands, and of a multiplication. -/
def namedPushes : List (Action Float) :=
  [ .pushValue (.literal 1), .pushValue (.literal 2), .pushValue (.literal 3),
    .pushCall ⟨"+", some ownSquare, 2, false⟩, .pushCall (.operator "*" (some (.builtin .mul))) ]

/-- A call of the producer's routine that is named like an operator may be dropped: it is fused with
the multiplication after it. -/
theorem own_routine_dropped_by_name :
    let start : Program Float := { config := {}, draws := fun _ => 0 }
    (∀ a ∈ namedPushes, a.isPush = true) ∧
      (start.accepted namedPushes).countP (Call.usesOwn 7) = 1 ∧
      countOwn 7 (start.after namedPushes).finalize.program.code = 0 :=
  ⟨by decide, rfl, rfl⟩

end StackCode
