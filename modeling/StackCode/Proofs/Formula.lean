import Mathlib.Tactic.FinCases
import StackCode.Proofs.Tokens

/-!
# Formulas in one variable

A formula is made of literals and one variable by sums, differences and products. Its tokens are those
of its two parts and then the operator. Tokens are read back from the right, so no two formulas have
the same tokens; and counting the depth is all it takes to see that tokens are those of a formula,
because a forest of formulas that grows and shrinks with the depth can be kept along the way.

A formula is affine if one of the two factors of every product does not mention the variable.
-/

namespace StackCode

universe u

/-- The operators of formulas. -/
inductive RingOperator where
  | sum
  | difference
  | product
  deriving DecidableEq, Repr

namespace RingOperator

/-- The symbol of an operator. -/
def symbol : RingOperator → String
  | .sum => "+"
  | .difference => "-"
  | .product => "*"

/-- The routine of an operator. -/
def routine : RingOperator → Builtin
  | .sum => .add
  | .difference => .sub
  | .product => .mul

/-- The symbols of operators are names of routines. -/
theorem isSome_lookup? (o : RingOperator) : (lookup? o.symbol).isSome = true := by
  cases o <;> rfl

/-- The named routine of an operator. -/
def entry (o : RingOperator) : CatalogEntry := (lookup? o.symbol).get o.isSome_lookup?

@[simp] theorem entry_name (o : RingOperator) : o.entry.name = o.symbol := by cases o <;> rfl

@[simp] theorem entry_routine (o : RingOperator) : o.entry.routine = o.routine := by cases o <;> rfl

@[simp] theorem entry_binary (o : RingOperator) : o.entry.binary = true := by cases o <;> rfl

@[simp] theorem entry_arity (o : RingOperator) : o.entry.arity = some 2 := by cases o <;> rfl

/-- Operators are told apart by their symbols. -/
theorem symbol_injective : Function.Injective symbol := by
  intro o other
  cases o <;> cases other <;> decide

/-- Operators are told apart by their entries. -/
theorem entry_injective : Function.Injective entry := by
  intro o other h
  apply symbol_injective
  rw [← o.entry_name, h, entry_name]

end RingOperator

/-- A named routine is found under its name. -/
theorem lookup?_name {entry : CatalogEntry} (h : entry ∈ catalog) :
    lookup? entry.name = some entry := by
  unfold catalog at h
  fin_cases h <;> rfl

/-- A formula in one variable. -/
inductive Formula (α : Type u) where
  | literal (x : α)
  | slot
  | combined (o : RingOperator) (left right : Formula α)

variable {α : Type u}

namespace Formula

/-- The tokens of a formula in the given variable. -/
def tokens (name : String) (source : Slot) : Formula α → List (Token α)
  | .literal x => [.literal x]
  | .slot => [.slot name source]
  | .combined o left right => left.tokens name source ++ right.tokens name source ++ [.call o.entry 2]

/-- The variable occurs in a formula. -/
def Mentions : Formula α → Prop
  | .literal _ => False
  | .slot => True
  | .combined _ left right => left.Mentions ∨ right.Mentions

/-- One of the two factors of every product does not mention the variable. -/
def IsAffine : Formula α → Prop
  | .literal _ => True
  | .slot => True
  | .combined o left right =>
    left.IsAffine ∧ right.IsAffine ∧ (o = .product → ¬left.Mentions ∨ ¬right.Mentions)

/-- The last tokens of a list are those of at most one formula. -/
theorem append_tokens_inj {name : String} {source : Slot} {f g : Formula α}
    {before others : List (Token α)}
    (h : before ++ f.tokens name source = others ++ g.tokens name source) :
    before = others ∧ f = g := by
  -- The last token decides which kind of formula it is; the operands of a call are then read
  -- from the right, the second before the first.
  induction f generalizing g before others with
  | literal x => cases g <;> simp_all [tokens, ← List.append_assoc]
  | slot => cases g <;> simp_all [tokens, ← List.append_assoc]
  | combined o left right ihleft ihright =>
    cases g with
    | literal y => simp [tokens, ← List.append_assoc] at h
    | slot => simp [tokens, ← List.append_assoc] at h
    | combined other left' right' =>
      simp only [tokens, ← List.append_assoc] at h
      obtain ⟨hparts, hlast⟩ := List.append_singleton_inj.mp h
      obtain ⟨hleft, rfl⟩ := ihright hparts
      obtain ⟨hbefore, rfl⟩ := ihleft hleft
      injection hlast with hentry
      rw [RingOperator.entry_injective hentry]
      exact ⟨hbefore, rfl⟩

/-- Formulas are told apart by their tokens. -/
theorem tokens_injective (name : String) (source : Slot) :
    Function.Injective (tokens name source : Formula α → List (Token α)) := by
  intro f g h
  have happend : [] ++ f.tokens name source = [] ++ g.tokens name source := h
  exact (append_tokens_inj happend).2

end Formula

/-- A token of formulas in the given variable: a literal, the variable or an operator. -/
def Token.InFormula (name : String) (source : Slot) : Token α → Prop
  | .literal _ => True
  | .slot other place => other = name ∧ place = source
  | .call entry _ => ∃ o : RingOperator, entry.name = o.symbol
  | .assign _ _ => False

/-- The tokens of a formula are of that kind. -/
theorem Formula.inFormula_tokens {name : String} {source : Slot} (f : Formula α) :
    ∀ t ∈ f.tokens name source, t.InFormula name source := by
  induction f with
  | literal x => simp [tokens, Token.InFormula]
  | slot => simp [tokens, Token.InFormula]
  | combined o left right ihleft ihright =>
    have hoperator : (Token.call o.entry 2 : Token α).InFormula name source := ⟨o, o.entry_name⟩
    simp only [tokens, List.forall_mem_append, List.forall_mem_singleton]
    exact ⟨⟨ihleft, ihright⟩, hoperator⟩

/-- A valid call token of an operator is the token of that operator. -/
theorem Token.Valid.eq_operator {entry : CatalogEntry} {arity : Nat}
    (hvalid : (Token.call entry arity : Token α).Valid) {o : RingOperator}
    (hname : entry.name = o.symbol) : (Token.call entry arity : Token α) = .call o.entry 2 := by
  have hentry : entry = o.entry := by
    have hlookup : lookup? o.symbol = some entry := by rw [← hname, lookup?_name hvalid.1]
    exact (Option.get_of_eq_some o.isSome_lookup? hlookup).symm
  rw [hvalid.2 2 (by rw [hentry, o.entry_arity]), hentry]

variable [Arithmetic α]

/-- Tokens that take a forest of formulas to one slot complete it to the tokens of one formula. -/
theorem Formula.exists_tokens_eq {name : String} {source : Slot} (forest : List (Formula α))
    {rest : List (Token α)} (hvalid : ∀ t ∈ rest, t.Valid)
    (hformula : ∀ t ∈ rest, t.InFormula name source)
    (hdepth : recognize? forest.length rest = some 1) :
    ∃ f : Formula α,
      f.tokens name source = forest.reverse.flatMap (tokens name source) ++ rest := by
  induction rest generalizing forest with
  | nil =>
    obtain ⟨f, rfl⟩ : ∃ f, forest = [f] := by
      apply List.length_eq_one_iff.mp
      exact Int.ofNat.inj (Option.some.inj hdepth)
    exact ⟨f, by simp⟩
  | cons t rest ih =>
    obtain ⟨ht, hvalids⟩ := List.forall_mem_cons.mp hvalid
    obtain ⟨hin, hformulas⟩ := List.forall_mem_cons.mp hformula
    obtain ⟨d, hd, hrest⟩ := Option.bind_eq_some_iff.mp hdepth
    cases t with
    | literal x =>
      cases hd
      obtain ⟨f, hf⟩ := ih (.literal x :: forest) hvalids hformulas hrest
      exact ⟨f, by simpa [tokens] using hf⟩
    | slot other place =>
      obtain ⟨rfl, rfl⟩ := hin
      cases hd
      obtain ⟨f, hf⟩ := ih (.slot :: forest) hvalids hformulas hrest
      exact ⟨f, by simpa [tokens] using hf⟩
    | call entry arity =>
      obtain ⟨o, hname⟩ := hin
      rw [ht.eq_operator hname] at hd ⊢
      obtain ⟨htwo, rfl⟩ := Operation.depth?_call_eq_some.mp hd
      match forest, htwo with
      | right :: left :: below, _ =>
        have hless : ((right :: left :: below).length : Int) - 2 + 1 =
            (Formula.combined o left right :: below).length := by
          simp only [List.length_cons]
          omega
        obtain ⟨f, hf⟩ := ih (.combined o left right :: below) hvalids hformulas
          (by rw [← hless]; exact hrest)
        exact ⟨f, by simpa [tokens] using hf⟩
    | assign other place => exact hin.elim

/-- An accepted expression of literals, one variable and operators is that of one formula. -/
theorem Assembler.existsUnique_formula {a : Assembler α} {name : String} {slot : Slot}
    {source : String} {tokens : List (Token α)} {p : Program α}
    (hok : (a.assemble source).result = .ok p) (hreads : a.Reads (a.tokens source) tokens)
    (hformula : ∀ t ∈ tokens, t.InFormula name slot) :
    ∃! f : Formula α, f.tokens name slot = tokens := by
  obtain ⟨-, others, -, hothers, hdepth, -⟩ := assemble_pushed hok
  obtain rfl : tokens = others := hreads.unique hothers
  obtain ⟨f, hf⟩ := Formula.exists_tokens_eq [] hreads.valid hformula hdepth
  exact ⟨f, hf, fun g hg => Formula.tokens_injective name slot (hg.trans hf.symm)⟩

end StackCode
