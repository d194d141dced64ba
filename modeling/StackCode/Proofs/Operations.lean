import StackCode.Proofs.Tokens

/-!
# Properties of stored operations

Folding puts new operations into a program: a literal, a sum, a scaled or a negated value, a small
power, and the calls that are pushed. A property of operations that each of these inherits from the
operations it comes from holds of every stored operation once it holds of what is pushed. Rules of
linear folding only count where it is on. Tokens push values, calls of named routines and
assignments, so a property that these have holds of everything an expression stores.
-/

namespace StackCode

universe u

variable {α : Type u} {P : Operation α → Prop}

/-- Every stored operation has a property. -/
def Program.Holds (P : Operation α → Prop) (p : Program α) : Prop :=
  ∀ i ∈ p.latest, P i.operation

/-- A property of every stored operation and of one more holds after it is stored. -/
theorem Program.Holds.stored {p : Program α} (hp : p.Holds P) {o : Operation α} (ho : P o)
    (d : Int) : (p.stored o d).Holds P := by
  intro i hi
  rcases List.mem_cons.mp hi with rfl | hi
  · exact ho
  · exact hp i hi

variable [Arithmetic α]

/-- A property of operations that folding keeps, one clause for each way to get a new operation. -/
structure FoldClosed (config : Config) (P : Operation α → Prop) : Prop where
  literal (x : α) : P (.value (.literal x))
  retagged {c : Call α} (h : P (.call c)) : P (.call { c with binary := false })
  plus {a b : Value α} (hlinear : config.FoldsLinear)
    (hvariable : a.isConstant = true ∨ b.isConstant = true ∨ a.source = b.source)
    (ha : P (.value a)) (hb : P (.value b)) : P (.value (a.plus b))
  scaled {a : Value α} (hlinear : config.FoldsLinear) (hvariable : a.isConstant = false)
    (ha : P (.value a)) (k : α) : P (.value (a.timesRight k))
  negated {v : Value α} (hlinear : config.FoldsLinear) (hv : P (.value v)) :
    P (.value v.negated)
  power {n : Nat} {b : Builtin} (hlinear : config.FoldsLinear)
    (hroutine : Builtin.ofExponent? n = some b) :
    P (.call ⟨s!"^{n}", some (.builtin b), 1, false⟩)
  again {c : Call α} (hlinear : config.FoldsLinear) (hname : c.name = "+")
    (harity : c.arity = 2) (h : P (.call c)) : P (.call { c with binary := true })
  sum {c : Call α} (hlinear : config.FoldsLinear) (hbinary : c.binary = true)
    (hname : c.name = "-") (h : P (.call c)) : P (.call c.asSum)

variable {p q : Program α} {c : Call α}

/-- A property that folding keeps holds after an absorbed call. -/
theorem Absorbed.holds (h : Absorbed p c q) (hP : FoldClosed p.config P) (hp : p.Holds P) :
    q.Holds P := by
  cases h with
  | @literals r xs first rest _ _ _ _ _ hfirst =>
    intro i hi
    rcases List.mem_cons.mp hi with rfl | hi
    · exact hP.literal _
    · refine hp i (List.mem_of_mem_drop (i := c.arity.toNat - 1) ?_)
      rw [hfirst]
      exact List.mem_cons_of_mem _ hi
  | sum hlinear _ _ hlatest hvariable =>
    rw [Program.Holds, hlatest, List.forall_mem_cons, List.forall_mem_cons] at hp
    refine List.forall_mem_cons.mpr ⟨?_, hp.2.2⟩
    exact hP.plus hlinear hvariable hp.2.1 hp.1
  | product hlinear _ _ hlatest hvalue =>
    rw [Program.Holds, hlatest, List.forall_mem_cons, List.forall_mem_cons] at hp
    refine List.forall_mem_cons.mpr ⟨?_, hp.2.2⟩
    obtain ⟨ha, _, rfl⟩ | ⟨_, hb, rfl⟩ := hvalue
    · exact hP.scaled hlinear ha hp.2.1 _
    · exact hP.scaled hlinear hb hp.1 _
  | power hlinear _ _ hlatest _ _ hroutine =>
    rw [Program.Holds, hlatest, List.forall_mem_cons] at hp
    exact List.forall_mem_cons.mpr ⟨hP.power hlinear hroutine, hp.2⟩

/-- A property that folding keeps holds after a pushed call that has it. -/
theorem Pushed.holds (h : Pushed p c q) (hP : FoldClosed p.config P) (hp : p.Holds P)
    (hc : P (.call c)) : q.Holds P := by
  cases h with
  | absorbed h => exact h.holds hP hp
  | stored => exact hp.stored (hP.retagged hc) _

/-- A property that folding keeps holds however a call is pushed that has it. -/
theorem CallPushed.holds (h : CallPushed p c q) (hP : FoldClosed p.config P) (hp : p.Holds P)
    (hc : P (.call c)) : q.Holds P := by
  cases h with
  | direct h => exact h.holds hP hp hc
  | negated hlinear hbinary hname hlatest h =>
    rw [Program.Holds, hlatest, List.forall_mem_cons] at hp
    refine h.holds hP ?_ (hP.sum hlinear hbinary hname hc)
    exact List.forall_mem_cons.mpr ⟨hP.negated hlinear hp.1, hp.2⟩
  | @through v pos above front below mid _ hlinear hbinary hname hlatest hfront harity hagain h =>
    rw [Program.Holds, hlatest, List.forall_mem_cons, List.forall_mem_cons] at hp
    obtain ⟨hv, hsum, hbelow⟩ := hp
    have hunder : ((p.rewound below).stored (.value v.negated) (topPos below + 1)).Holds P :=
      Program.Holds.stored (p := p.rewound below) hbelow (hP.negated hlinear hv) _
    have hmid : mid.Holds P := hagain.holds hP hunder (hP.again hlinear hfront harity hsum)
    refine h.holds ?_ hmid (hP.sum hlinear hbinary hname hc)
    rw [hagain.config_eq]
    exact hP

/-- Folding keeps two properties together that it keeps. -/
theorem FoldClosed.and {Q : Operation α → Prop} {config : Config} (hP : FoldClosed config P)
    (hQ : FoldClosed config Q) : FoldClosed config fun o => P o ∧ Q o where
  literal x := ⟨hP.literal x, hQ.literal x⟩
  retagged h := ⟨hP.retagged h.1, hQ.retagged h.2⟩
  plus hlinear hvariable ha hb :=
    ⟨hP.plus hlinear hvariable ha.1 hb.1, hQ.plus hlinear hvariable ha.2 hb.2⟩
  scaled hlinear hvariable ha k :=
    ⟨hP.scaled hlinear hvariable ha.1 k, hQ.scaled hlinear hvariable ha.2 k⟩
  negated hlinear hv := ⟨hP.negated hlinear hv.1, hQ.negated hlinear hv.2⟩
  power hlinear hroutine := ⟨hP.power hlinear hroutine, hQ.power hlinear hroutine⟩
  again hlinear hname harity h :=
    ⟨hP.again hlinear hname harity h.1, hQ.again hlinear hname harity h.2⟩
  sum hlinear hbinary hname h :=
    ⟨hP.sum hlinear hbinary hname h.1, hQ.sum hlinear hbinary hname h.2⟩

/-- Folding keeps a property of calls alone that the calls have which it makes. -/
theorem foldClosed_calls {config : Config} {Q : Call α → Prop}
    (hretagged : ∀ c : Call α, Q c → ∀ binary, Q { c with binary })
    (hpower : config.FoldsLinear → ∀ (n : Nat) (b : Builtin), Builtin.ofExponent? n = some b →
      Q ⟨s!"^{n}", some (.builtin b), 1, false⟩)
    (hsum : config.FoldsLinear → ∀ c : Call α, Q c.asSum) :
    FoldClosed config fun o : Operation α => ∀ c, o = .call c → Q c where
  literal _ c h := by contradiction
  retagged {c} h := by
    rintro d ⟨⟩
    exact hretagged c (h c rfl) false
  plus _ _ _ _ c h := by contradiction
  scaled _ _ _ _ c h := by contradiction
  negated _ _ c h := by contradiction
  power {n b} hlinear hroutine := by
    rintro d ⟨⟩
    exact hpower hlinear n b hroutine
  again {c} _ _ _ h := by
    rintro d ⟨⟩
    exact hretagged c (h c rfl) true
  sum {c} hlinear _ _ _ := by
    rintro d ⟨⟩
    exact hsum hlinear c

/-- Folding keeps a property of values alone that the values have which it makes. -/
theorem foldClosed_values {config : Config} {Q : Value α → Prop}
    (hliteral : ∀ x : α, Q (.literal x)) (hplus : ∀ a b : Value α, Q a → Q b → Q (a.plus b))
    (hscaled : ∀ a : Value α, a.isConstant = false → Q a → ∀ k, Q (a.timesRight k))
    (hnegated : ∀ v : Value α, Q v → Q v.negated) :
    FoldClosed config fun o : Operation α => ∀ v, o = .value v → Q v where
  literal x := by
    rintro v ⟨⟩
    exact hliteral x
  retagged _ v h := by contradiction
  plus {a b} _ _ ha hb := by
    rintro v ⟨⟩
    exact hplus a b (ha a rfl) (hb b rfl)
  scaled {a} _ hvariable ha k := by
    rintro v ⟨⟩
    exact hscaled a hvariable (ha a rfl) k
  negated {w} _ hw := by
    rintro v ⟨⟩
    exact hnegated w (hw w rfl)
  power _ _ v h := by contradiction
  again _ _ _ _ v h := by contradiction
  sum _ _ _ _ v h := by contradiction

/-- The operation that a token is pushed as, before folding. -/
def Token.pushed : Token α → Operation α
  | .call entry arity => .call (entry.call arity)
  | t => t.operation

variable {t : Token α} {tokens : List (Token α)}

/-- Tokens have a property of calls alone that the calls of named routines have. -/
theorem Token.Valid.pushed_calls {Q : Call α → Prop} (h : t.Valid)
    (hcatalog : ∀ entry ∈ catalog, ∀ arity : Nat, Q (entry.call arity)) :
    ∀ c, t.pushed = .call c → Q c := by
  intro c hc
  cases t with
  | call entry arity =>
    cases hc
    exact hcatalog entry h.1 arity
  | literal x => contradiction
  | slot name source => contradiction
  | assign name target => contradiction

/-- A property that folding keeps holds after a token that has it. -/
theorem TokenPushed.holds (h : TokenPushed p t q) (hP : FoldClosed p.config P) (hp : p.Holds P)
    (ht : P t.pushed) : q.Holds P := by
  cases h with
  | literal x => exact hp.stored ht _
  | slot name source => exact hp.stored ht _
  | call _ h => exact h.holds hP hp ht
  | assign name target _ => exact List.forall_mem_cons.mpr ⟨ht, hp⟩

/-- A property that folding keeps holds after tokens that have it. -/
theorem TokensPushed.holds_of_mem (h : TokensPushed p tokens q) (hP : FoldClosed p.config P)
    (hp : p.Holds P) (htokens : ∀ t ∈ tokens, P t.pushed) : q.Holds P := by
  induction h with
  | nil => exact hp
  | cons _ h _ ih =>
    obtain ⟨hfirst, hrest⟩ := List.forall_mem_cons.mp htokens
    refine ih ?_ (h.holds hP hp hfirst) hrest
    rw [h.config_eq]
    exact hP

/-- A property that folding keeps holds after any tokens if valid ones have it. -/
theorem TokensPushed.holds (h : TokensPushed p tokens q) (hP : FoldClosed p.config P)
    (hp : p.Holds P) (htokens : ∀ t : Token α, t.Valid → P t.pushed) : q.Holds P :=
  h.holds_of_mem hP hp fun t ht => htokens t (h.valid t ht)

end StackCode
