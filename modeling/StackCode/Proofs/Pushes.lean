import StackCode.Proofs.Verification

/-!
# Checking pushed programs

A program that a producer pushes, with any tokens, is sealed and then checked. Before fusion its
stamps are right, so the check can only object to what fusion did.

Fusion takes a power by its routine and counts one operand for it, whatever operands the call has.
A power of several operands is then fused unevenly: the fused call stands at a depth that its two
operands do not explain. Nothing repairs that later, since a fused power is not fused again. So the
check accepts a sealed program exactly if fusion was even, and it is even if every power that is
pushed has one operand.
-/

namespace StackCode

universe u

variable {α : Type u}

/-- A fused power whose stamp is wrong. -/
def Spoiled (latest : List (Instruction α)) : Prop :=
  ∃ later r d earlier, r ∈ powerRules ∧
    let fused : Instruction α := ⟨.call ⟨r.routine.name, some (.builtin r.routine), 2, false⟩, d⟩
    latest = later ++ fused :: earlier ∧ ¬Stamped (fused :: earlier)

/-- Stamps are not right where a fused power has a wrong one. -/
theorem Spoiled.not_stamped {latest : List (Instruction α)} (h : Spoiled latest) :
    ¬Stamped latest := by
  obtain ⟨later, r, d, earlier, -, rfl, hwrong⟩ := h
  intro hstamped
  apply hwrong
  simpa using hstamped.drop later.length

/-- A wrong stamp stays when one more instruction is stored or fused. -/
theorem Spoiled.fuseOnto {before : List (Instruction α)} (h : Spoiled before)
    (next : Instruction α) : Spoiled (fuseOnto before next) := by
  obtain ⟨later, r, d, earlier, hr, hbefore, hwrong⟩ := h
  obtain heq | ⟨tail, rest, fused, event, rfl, hfuse, heq⟩ := fuseOnto_cases before next
  · rw [heq, hbefore]
    exact ⟨next :: later, r, d, earlier, hr, rfl, hwrong⟩
  · rw [heq]
    obtain ⟨n, t, c, -, ht, -, -, hcall, -⟩ := fuseInstructions?_fused hfuse
    cases later with
    | nil =>
      obtain ⟨rfl, -⟩ := List.cons.inj hbefore
      cases ht
      obtain ⟨hpair, hpower⟩ := powerRules_final r hr
      cases hcall with
      | pair hrule _ _ _ hinner => exact absurd hinner (hpair _ hrule)
      | power hrule _ _ hroutine =>
        exact absurd (Routine.builtin.inj (Option.some.inj hroutine)) (hpower _ hrule)
    | cons i later =>
      obtain ⟨-, rfl⟩ := List.cons.inj hbefore
      exact ⟨fused :: later, r, d, earlier, hr, rfl, hwrong⟩

/-- An instruction that is fused unevenly leaves a wrong stamp. -/
theorem spoiled_fuseOnto {before : List (Instruction α)} {next : Instruction α}
    (h : Stamped (next :: before)) (huneven : ¬FusesEvenlyOnto before next) :
    Spoiled (fuseOnto before next) := by
  simp only [FusesEvenlyOnto, not_forall] at huneven
  obtain ⟨tail, htail, ⟨fused, event⟩, hfuse, hdrain⟩ := huneven
  obtain ⟨rest, rfl⟩ : ∃ rest, before = tail :: rest := List.head?_eq_some_iff.mp htail
  have hfuse : fuseInstructions? next tail = some (fused, event) := hfuse
  have heq : fuseOnto (tail :: rest) next = fused :: rest := by simp only [fuseOnto, hfuse]
  obtain ⟨n, t, c, hn, ht, -, -, hcall, rfl⟩ := fuseInstructions?_fused hfuse
  obtain ⟨next, d⟩ := next
  obtain ⟨tail, e⟩ := tail
  cases hn
  cases ht
  have hwrong := mt (hcall.stamped_iff h).mp hdrain
  cases hcall with
  | @pair r _ hnext htwo _ _ =>
    change ¬(3 : Int) - 1 = t.arity - 1 + (n.arity - 1) at hdrain
    omega
  | @power r hrule _ _ _ => exact ⟨[], r, d, rest, hrule, heq, hwrong⟩

/-- The stamps of fused code are right exactly if the fusion was even. -/
theorem fusedLatest_stamped_iff {latest : List (Instruction α)} (h : Stamped latest) :
    Stamped (fusedLatest latest) ↔ FusesEvenly latest := by
  refine ⟨fun hfused => ?_, fun heven => fusedLatest_stamped heven h⟩
  by_contra huneven
  suffices Spoiled (fusedLatest latest) from this.not_stamped hfused
  clear hfused
  induction latest with
  | nil => exact absurd trivial huneven
  | cons next rest ih =>
    by_cases hrest : FusesEvenly rest
    · have hbelow := fusedLatest_stamped hrest h.tail
      exact spoiled_fuseOnto (stamped_cons_fusedLatest h hbelow) fun heven => huneven ⟨heven, hrest⟩
    · exact (ih h.tail hrest).fuseOnto next

/-- Fusion only puts in calls that may be stored. -/
theorem FusedCall.storable (n t c : Call α) (h : FusedCall n t c) :
    (Operation.call c).Storable := by
  cases h with
  | pair _ _ _ _ _ => exact ⟨rfl, by simp⟩
  | power _ _ _ _ => exact ⟨rfl, by simp⟩

namespace Program.Booked

variable {p : Program α}

/-- Fused code holds stored operations only. -/
theorem substitute_storable (h : p.Booked) : p.substitute.program.Holds Operation.Storable := by
  rw [Holds, substitute_latest]
  split
  · exact fusedLatest_holds FusedCall.storable h.stamped.storable
  · exact h.stamped.storable

/-- The check finds nothing in a sealed program only if the stamps of its fused code are right. -/
theorem stamped_of_verify (h : p.Booked) (hchecked : p.finalize.program.verify.findings = []) :
    Stamped p.substitute.program.latest := by
  have hstorable := h.substitute_storable
  obtain ⟨-, hsound, -⟩ := (verify_findings_iff (finalize_countable hstorable)).mp hchecked
  exact (runsSoundly_finalize_iff hstorable (substitute_depth h.depth)).mp hsound

/-- The check accepts a sealed program, at its depth, exactly if its fusion was even. -/
theorem verify_finalize_iff (h : p.Booked) :
    (p.finalize.program.verify.findings = [] ∧
      p.finalize.program.verify.finalDepth = p.finalize.program.stackPos) ↔
    (p.config.optimizer = true → FusesEvenly p.latest) := by
  constructor
  · rintro ⟨hchecked, -⟩ hoptimizer
    have hstamped := h.stamped_of_verify hchecked
    rw [substitute_latest, if_pos hoptimizer] at hstamped
    exact (fusedLatest_stamped_iff h.stamped).mp hstamped
  · intro heven
    obtain ⟨hfindings, hfinal, -⟩ := verify_finalize (h.substitute_of_even heven)
    refine ⟨hfindings, hfinal.trans ?_⟩
    change _ = p.substitute.program.closed.stackPos
    unfold closed
    split <;> rfl

end Program.Booked

/-- The operation that an action pushes. -/
def Action.pushed? : Action α → Option (Operation α)
  | .pushValue v => some (.value v)
  | .pushCall c => some (.call c)
  | .pushAssign o => some o
  | _ => none

/-- Whether an action pushes an operation. -/
def Action.isPush (a : Action α) : Bool := a.pushed?.isSome

/-- A push is an edit. -/
theorem Action.isEdit_of_isPush {a : Action α} (h : a.isPush = true) : a.isEdit = true := by
  cases a with
  | pushValue v => rfl
  | pushCall c => rfl
  | pushAssign o => rfl
  | appendRaw o => exact h
  | popLast => rfl
  | substitute => exact h
  | finalize => exact h
  | clear => rfl

variable {P : Operation α → Prop} [Arithmetic α]

/-- An edit leaves the settings alone. -/
theorem Action.run_config {p : Program α} (hbooked : p.Booked) {a : Action α}
    (hedit : a.isEdit = true) : (a.run p).config = p.config := by
  cases a with
  | pushValue v =>
    rw [run, Program.pushValue_eq hbooked.isSteady]
    rfl
  | pushCall c =>
    rw [run]
    obtain heq | ⟨harity, hle⟩ := p.pushCall_program_cases c
    · rw [heq]
    · exact (hbooked.pushCall_pushed harity hle).2.config_eq
  | pushAssign o =>
    rw [run]
    obtain heq | ⟨_, rfl, _, heq⟩ := p.pushAssign_program_cases o
    · rw [heq]
    · rw [heq]
  | popLast =>
    rw [run, Program.popLast]
    split <;> rfl
  | clear => rfl
  | appendRaw o => cases hedit
  | substitute => cases hedit
  | finalize => cases hedit

/-- Edits leave the settings alone. -/
theorem Program.Booked.config_after {p : Program α} (hbooked : p.Booked)
    {actions : List (Action α)} (hedits : ∀ a ∈ actions, a.isEdit = true) :
    (p.after actions).config = p.config := by
  induction actions generalizing p with
  | nil => rfl
  | cons a rest ih =>
    obtain ⟨ha, hrest⟩ := List.forall_mem_cons.mp hedits
    exact (ih (a.run_booked hbooked ha) hrest).trans (a.run_config hbooked ha)

/-- A property that folding keeps holds after a push of an operation that has it. -/
theorem Action.run_holds {p : Program α} (hbooked : p.Booked) (hP : FoldClosed p.config P)
    (hp : p.Holds P) {a : Action α} (hpush : a.isPush = true) (ha : ∀ o ∈ a.pushed?, P o) :
    (a.run p).Holds P := by
  cases a with
  | pushValue v =>
    rw [run, Program.pushValue_eq hbooked.isSteady]
    exact hp.stored (ha _ rfl) _
  | pushCall c =>
    rw [run]
    obtain heq | ⟨harity, hle⟩ := p.pushCall_program_cases c
    · rw [heq]
      exact hp
    · exact (hbooked.pushCall_pushed harity hle).2.holds hP hp (ha _ rfl)
  | pushAssign o =>
    rw [run]
    obtain heq | ⟨_, rfl, _, heq⟩ := p.pushAssign_program_cases o
    · rw [heq]
      exact hp
    · rw [heq]
      exact List.forall_mem_cons.mpr ⟨ha _ rfl, hp⟩
  | appendRaw o => cases hpush
  | popLast => cases hpush
  | substitute => cases hpush
  | finalize => cases hpush
  | clear => cases hpush

/-- A property that folding keeps holds after pushes of operations that have it. -/
theorem Program.Booked.holds_after {p : Program α} (hbooked : p.Booked)
    (hP : FoldClosed p.config P) (hp : p.Holds P) {actions : List (Action α)}
    (hpush : ∀ a ∈ actions, a.isPush = true) (hpushed : ∀ a ∈ actions, ∀ o ∈ a.pushed?, P o) :
    (p.after actions).Holds P := by
  induction actions generalizing p with
  | nil => exact hp
  | cons a rest ih =>
    obtain ⟨ha, hrest⟩ := List.forall_mem_cons.mp hpush
    obtain ⟨hown, hothers⟩ := List.forall_mem_cons.mp hpushed
    have hedit := a.isEdit_of_isPush ha
    refine ih (a.run_booked hbooked hedit) ?_ (a.run_holds hbooked hP hp ha hown) hrest hothers
    rw [a.run_config hbooked hedit]
    exact hP

/-- Folding makes no power of several operands. -/
theorem foldClosed_unaryPower (config : Config) :
    FoldClosed config (Operation.UnaryPower : Operation α → Prop) := by
  refine foldClosed_calls (fun c h binary => h) (fun _ n b _ => fun _ _ _ => rfl) fun _ c => ?_
  intro b hb hroutine
  cases hroutine
  exact absurd hb (by decide)

/-- After any pushes to an empty program, with any settings and any tokens, refused ones included,
the check accepts the sealed program and ends at its depth exactly if the optimizer is off or the
fusion pass fuses evenly. It does so if every power that is pushed, of those that fusion knows, has
one operand. -/
theorem pushed_program_verifies (config : Config) (draws : Nat → α) (actions : List (Action α))
    (hpush : ∀ a ∈ actions, a.isPush = true) :
    let p := ({ config, draws } : Program α).after actions
    let accepted := p.finalize.program.verify.findings = [] ∧
      p.finalize.program.verify.finalDepth = p.finalize.program.stackPos
    (accepted ↔ (config.optimizer = true → FusesEvenly p.latest)) ∧
      ((∀ a ∈ actions, ∀ o ∈ a.pushed?, o.UnaryPower) → accepted) := by
  intro p accepted
  have hstart : ({ config, draws } : Program α).Booked := .start config draws
  have hedits : ∀ a ∈ actions, a.isEdit = true := fun a ha => a.isEdit_of_isPush (hpush a ha)
  have hiff : accepted ↔ (config.optimizer = true → FusesEvenly p.latest) := by
    rw [← show p.config = config from hstart.config_after hedits]
    exact (hstart.after hedits).verify_finalize_iff
  refine ⟨hiff, fun hunary => hiff.mpr fun _ => fusesEvenly_of_unaryPower ?_⟩
  exact hstart.holds_after (foldClosed_unaryPower config) (fun i hi => absurd hi List.not_mem_nil)
    hpush hunary

/-- A square times a number, with the product stored, and a call that is refused. -/
def squarePushes : List (Action Float) :=
  [ .pushValue (.ofSlot "x" (some "x")), .pushValue (.literal 2), .pushValue (.literal 3),
    .pushCall ⟨"^2", some (.builtin .pow2), 1, false⟩,
    .pushCall (.operator "*" (some (.builtin .mul))), .pushCall ⟨"f", none, 3, false⟩,
    .pushAssign (.assign ⟨"x", some "x"⟩) ]

/-- The square is fused with the product, and the check accepts the program. -/
theorem pushed_program_verifies_square :
    let p := Program.after { config := {}, draws := fun _ => (0 : Float) } squarePushes
    (∀ a ∈ squarePushes, a.isPush = true) ∧
      (∀ a ∈ squarePushes, ∀ o ∈ a.pushed?, o.UnaryPower) ∧
      p.finalize.program.size = p.size ∧
      p.finalize.program.verify.findings = [] ∧
      p.finalize.program.verify.finalDepth = p.finalize.program.stackPos := by
  have hpush : ∀ a ∈ squarePushes, a.isPush = true := by decide
  have hunary : ∀ a ∈ squarePushes, ∀ o ∈ a.pushed?, o.UnaryPower := by
    simp [squarePushes, Action.pushed?, Operation.UnaryPower, Call.UnaryPower, Call.operator]
  exact ⟨hpush, hunary, rfl, (pushed_program_verifies {} _ squarePushes hpush).2 hunary⟩

/-- A product of a number and a square of two operands. -/
def unevenPushes : List (Action Float) :=
  [ .pushValue (.literal 1), .pushValue (.literal 2), .pushValue (.literal 3),
    .pushCall ⟨"f", some (.builtin .pow2), 2, false⟩,
    .pushCall (.operator "*" (some (.builtin .mul))) ]

/-- The check does not accept every pushed program: a square of two operands is fused as if it had
one, and the sealed program leaves a slot more than its depth says. -/
theorem pushed_program_fails_uneven :
    let p := Program.after { config := {}, draws := fun _ => (0 : Float) } unevenPushes
    (∀ a ∈ unevenPushes, a.isPush = true) ∧
      p.finalize.program.verify.findings.length = 2 ∧
      p.finalize.program.verify.finalDepth = 2 ∧ p.finalize.program.stackPos = 1 :=
  ⟨by decide, rfl, rfl, rfl⟩

end StackCode
