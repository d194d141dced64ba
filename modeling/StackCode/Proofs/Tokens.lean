import Mathlib.Data.List.Forall2
import StackCode.Postfix
import StackCode.Proofs.Bookkeeping

/-!
# What tokens do to a program

Each token of a postfix expression stands for one operation, whatever the settings of the program
it is pushed to. A token is accepted exactly if the depth before it has room for that operation,
and it moves the depth as the operation does. So an expression is accepted by counting the depth
alone: folding changes how a token is stored, but neither whether it is accepted nor the depth.
-/

namespace StackCode

universe u

variable {α : Type u}

/-- The call that a named routine is pushed as. -/
def CatalogEntry.call (entry : CatalogEntry) (arity : Nat) : Call α :=
  ⟨entry.name, some (.builtin entry.routine), arity, entry.binary⟩

/-- A call token is of a named routine, with its own operand count if that is fixed. -/
def Token.Valid : Token α → Prop
  | .call entry arity => entry ∈ catalog ∧ ∀ fixed, entry.arity = some fixed → arity = fixed
  | _ => True

/-- Operators take two operands. -/
theorem catalog_binary : ∀ entry ∈ catalog, entry.binary = true → entry.arity = some 2 := by decide

/-- An operator token has two operands. -/
theorem Token.Valid.arity_of_binary {entry : CatalogEntry} {arity : Nat}
    (h : (Token.call entry arity : Token α).Valid) (hbinary : entry.binary = true) : arity = 2 :=
  h.2 2 (catalog_binary entry h.1 hbinary)

/-- The operand count of a call is the fixed one, if there is one. -/
theorem CatalogEntry.operands_fixed {entry : CatalogEntry} {given : Option Nat} {n fixed : Nat}
    (h : entry.operands given = .ok n) (hfixed : entry.arity = some fixed) : n = fixed := by
  unfold operands at h
  rw [hfixed] at h
  cases given with
  | none => exact (Except.ok.inj h).symm
  | some m =>
    dsimp only at h
    split at h
    · rename_i heq
      rw [heq]
      exact (Except.ok.inj h).symm
    · contradiction

/-- Tokens that are read are valid. -/
theorem Assembler.token_valid {a : Assembler α} {text : String} {t : Token α}
    (h : a.token text = .ok t) : t.Valid := by
  unfold token at h
  split at h
  · contradiction
  · split at h
    · cases h
      trivial
    · split at h
      · dsimp only at h
        split at h
        · cases h
          trivial
        · contradiction
      · split at h
        · contradiction
        · split at h
          · rename_i entry hlookup _
            cases hn : entry.operands _ with
            | error c => rw [hn] at h; contradiction
            | ok n =>
              rw [hn] at h
              cases h
              exact ⟨List.mem_of_find?_eq_some hlookup,
                fun fixed hfixed => CatalogEntry.operands_fixed hn hfixed⟩
          · contradiction
          · split at h
            · cases h
              trivial
            · contradiction

namespace Assembler

/-- The texts of an expression are read as the given tokens. -/
def Reads (a : Assembler α) (texts : List String) (tokens : List (Token α)) : Prop :=
  List.Forall₂ (fun text t => a.token text = .ok t) texts tokens

/-- Tokens have a property that each text is read with. -/
theorem Reads.forall_mem {a : Assembler α} {texts : List String} {tokens : List (Token α)}
    (h : a.Reads texts tokens) {P : Token α → Prop}
    (hP : ∀ text t, a.token text = .ok t → P t) : ∀ t ∈ tokens, P t := by
  induction h with
  | nil => exact fun t ht => absurd ht List.not_mem_nil
  | cons ht _ ih => exact List.forall_mem_cons.mpr ⟨hP _ _ ht, ih⟩

/-- Tokens that are read are valid. -/
theorem Reads.valid {a : Assembler α} {texts : List String} {tokens : List (Token α)}
    (h : a.Reads texts tokens) : ∀ t ∈ tokens, t.Valid :=
  h.forall_mem fun _ _ ht => token_valid ht

/-- Texts are read as one list of tokens. -/
theorem Reads.unique {a : Assembler α} {texts : List String} {tokens others : List (Token α)}
    (h : a.Reads texts tokens) (hothers : a.Reads texts others) : tokens = others :=
  List.right_unique_forall₂' (fun _ _ _ ht ht' => Except.ok.inj (ht.symm.trans ht')) h hothers

/-- The first texts of an expression are read as its first tokens. -/
theorem Reads.take {a : Assembler α} {texts : List String} {tokens : List (Token α)}
    (h : a.Reads texts tokens) (n : Nat) : a.Reads (texts.take n) (tokens.take n) :=
  List.forall₂_take n h

/-- A text that is repeated is read as a repeated token. -/
theorem reads_replicate {a : Assembler α} {text : String} {t : Token α} (h : a.token text = .ok t)
    (n : Nat) : a.Reads (List.replicate n text) (List.replicate n t) := by
  induction n with
  | zero => exact .nil
  | succ n ih => exact .cons h ih

end Assembler

variable [Arithmetic α]

/-- The operation that a token stands for. -/
def Token.operation : Token α → Operation α
  | .literal x => .value (.literal x)
  | .slot name source => .value (.ofSlot name (some source))
  | .call entry arity => .call { entry.call arity with binary := false }
  | .assign name target => .assign ⟨name, some target⟩

/-- The depth after a list of tokens, absent if one of them finds too few operands. -/
def recognize? (depth : Int) : List (Token α) → Option Int
  | [] => some depth
  | t :: rest => (t.operation.depth? depth).bind fun d => recognize? d rest

/-- What pushing a token does to a program. -/
inductive TokenPushed (p : Program α) : Token α → Program α → Prop
  | literal (x : α) :
      TokenPushed p (.literal x) (p.stored (.value (.literal x)) (p.stackPos + 1))
  | slot (name : String) (slot : Slot) :
      TokenPushed p (.slot name slot) (p.stored (.value (.ofSlot name (some slot))) (p.stackPos + 1))
  | call {entry : CatalogEntry} {arity : Nat} {q : Program α} (hle : (arity : Int) ≤ p.stackPos)
      (h : CallPushed p (entry.call arity) q) : TokenPushed p (.call entry arity) q
  | assign (name : String) (slot : Slot) (htwo : 2 ≤ p.stackPos) :
      TokenPushed p (.assign name slot)
        { p with
          latest := ⟨.assign ⟨name, some slot⟩, p.stackPos - 1⟩ :: p.latest
          stackPos := p.stackPos - 1 }

namespace Assembler

variable {p q : Program α} {t : Token α}

/-- A call token that finds its operands leaves what its call leaves. -/
theorem pushToken_call_eq {entry : CatalogEntry} {arity : Nat} (hbooked : p.Booked)
    (hvalid : (Token.call entry arity : Token α).Valid) (hle : (arity : Int) ≤ p.stackPos) :
    (pushToken p (.call entry arity)).2 = .ok (p.pushCall (entry.call arity)).program := by
  have hcall : (if entry.binary then .operator entry.name (some (.builtin entry.routine))
      else ⟨entry.name, some (.builtin entry.routine), arity, false⟩ : Call α) =
        entry.call arity := by
    cases hbinary : entry.binary with
    | false => simp [CatalogEntry.call, hbinary]
    | true => simp [CatalogEntry.call, Call.operator, hbinary, hvalid.arity_of_binary hbinary]
  have hnone : (p.pushCall (entry.call arity)).misuse = none :=
    (hbooked.pushCall_pushed (Int.natCast_nonneg arity) hle).1
  simp only [pushToken, if_neg (Int.not_lt.mpr hle), hcall, hnone]

/-- A call token that finds its operands is pushed as a call. -/
theorem pushToken_call {entry : CatalogEntry} {arity : Nat} (hbooked : p.Booked)
    (hvalid : (Token.call entry arity : Token α).Valid) (hle : (arity : Int) ≤ p.stackPos) :
    ∃ q, (pushToken p (.call entry arity)).2 = .ok q ∧ CallPushed p (entry.call arity) q :=
  ⟨_, pushToken_call_eq hbooked hvalid hle,
    (hbooked.pushCall_pushed (c := entry.call arity) (Int.natCast_nonneg arity) hle).2⟩

/-- A token that is accepted was pushed as its kind says. -/
theorem pushToken_pushed (hbooked : p.Booked) (hvalid : t.Valid)
    (hok : (pushToken p t).2 = .ok q) : TokenPushed p t q := by
  cases t with
  | literal x =>
    rw [pushToken, Program.pushValue_eq hbooked.isSteady] at hok
    cases hok
    exact .literal x
  | slot name slot =>
    rw [pushToken, Program.pushValue_eq hbooked.isSteady] at hok
    cases hok
    exact .slot name slot
  | call entry arity =>
    by_cases hfew : p.stackPos < arity
    · simp [pushToken, hfew] at hok
    · have hle := Int.not_lt.mp hfew
      obtain ⟨r, hr, hpushed⟩ := pushToken_call hbooked hvalid hle
      rw [hr] at hok
      cases hok
      exact .call hle hpushed
  | assign name slot =>
    by_cases hfew : p.stackPos < 2
    · simp [pushToken, hfew] at hok
    · have htwo := Int.not_lt.mp hfew
      simp only [pushToken, if_neg hfew, Program.pushAssign_eq htwo] at hok
      cases hok
      exact .assign name slot htwo

/-- A token that finds its operands is accepted. -/
theorem pushToken_accepts (hbooked : p.Booked) (hvalid : t.Valid) {d : Int}
    (hdepth : t.operation.depth? p.stackPos = some d) : ∃ q, (pushToken p t).2 = .ok q := by
  cases t with
  | literal x => exact ⟨_, rfl⟩
  | slot name slot => exact ⟨_, rfl⟩
  | call entry arity =>
    have hle : (arity : Int) ≤ p.stackPos := (Operation.depth?_call_eq_some.mp hdepth).1
    obtain ⟨q, hq, -⟩ := pushToken_call hbooked hvalid hle
    exact ⟨q, hq⟩
  | assign name slot =>
    have htwo : 2 ≤ p.stackPos := (Operation.depth?_assign_eq_some.mp hdepth).1
    simp only [pushToken, if_neg (Int.not_lt.mpr htwo), Program.pushAssign_eq htwo]
    exact ⟨_, rfl⟩

end Assembler

namespace TokenPushed

variable {p q : Program α} {t : Token α}

/-- A pushed token moves the depth as its operation does. -/
theorem depth?_eq (h : TokenPushed p t q) (hbooked : p.Booked) (hvalid : t.Valid) :
    t.operation.depth? p.stackPos = some q.stackPos := by
  cases h with
  | literal x => rfl
  | slot name source => rfl
  | @call entry arity _ hle h =>
    have hdepth : q.stackPos = p.stackPos - arity + 1 := h.stackPos_eq hbooked fun hbinary => by
      change (arity : Int) = 2
      rw [hvalid.arity_of_binary hbinary]
      rfl
    exact Operation.depth?_call_eq_some.mpr ⟨hle, hdepth⟩
  | assign name target htwo => exact Operation.depth?_assign_eq_some.mpr ⟨htwo, rfl⟩

/-- A pushed token keeps the books. -/
theorem booked (h : TokenPushed p t q) (hbooked : p.Booked) : q.Booked := by
  cases h with
  | literal x => exact hbooked.stored trivial rfl
  | slot name source => exact hbooked.stored trivial rfl
  | @call entry arity _ hle h => exact h.booked hbooked (Int.natCast_nonneg arity) hle
  | assign name target htwo =>
    have hpushed := hbooked.pushAssign (.assign ⟨name, some target⟩)
    rw [Program.pushAssign_eq htwo] at hpushed
    exact hpushed

/-- A pushed token leaves the settings alone. -/
theorem config_eq (h : TokenPushed p t q) : q.config = p.config := by
  cases h with
  | literal x => rfl
  | slot name source => rfl
  | call _ h => exact h.config_eq
  | assign name target _ => rfl

/-- Without the optimizer, a pushed token is stored as its operation. -/
theorem plain_operation (h : TokenPushed p t q) (hplain : p.config.optimizer = false) :
    q.latest.map Instruction.operation = t.operation :: p.latest.map Instruction.operation := by
  cases h with
  | literal x => rfl
  | slot name source => rfl
  | @call entry arity _ hle h =>
    rw [h.eq_stored (.of_plain hplain)]
    rfl
  | assign name target _ => rfl

end TokenPushed

/-- What pushing a list of tokens does to a program. -/
inductive TokensPushed : Program α → List (Token α) → Program α → Prop
  | nil {p : Program α} : TokensPushed p [] p
  | cons {p q r : Program α} {t : Token α} {rest : List (Token α)} (hvalid : t.Valid)
      (h : TokenPushed p t q) (hrest : TokensPushed q rest r) : TokensPushed p (t :: rest) r

namespace TokensPushed

variable {p q : Program α} {tokens : List (Token α)}

/-- Pushed tokens are valid. -/
theorem valid (h : TokensPushed p tokens q) : ∀ t ∈ tokens, t.Valid := by
  induction h with
  | nil => exact fun t ht => absurd ht List.not_mem_nil
  | cons hvalid _ _ ih => exact List.forall_mem_cons.mpr ⟨hvalid, ih⟩

/-- Pushed tokens keep the books. -/
theorem booked (h : TokensPushed p tokens q) (hbooked : p.Booked) : q.Booked := by
  induction h with
  | nil => exact hbooked
  | cons _ h _ ih => exact ih (h.booked hbooked)

/-- Pushed tokens move the depth as counting says. -/
theorem recognize?_eq (h : TokensPushed p tokens q) (hbooked : p.Booked) :
    recognize? p.stackPos tokens = some q.stackPos := by
  induction h with
  | nil => rfl
  | cons hvalid h _ ih =>
    rw [recognize?, h.depth?_eq hbooked hvalid, Option.bind_some]
    exact ih (h.booked hbooked)

/-- Pushed tokens leave the settings alone. -/
theorem config_eq (h : TokensPushed p tokens q) : q.config = p.config := by
  induction h with
  | nil => rfl
  | cons _ h _ ih => exact ih.trans h.config_eq

/-- Without the optimizer, the operations of pushed tokens are stored in turn. -/
theorem plain_operations (h : TokensPushed p tokens q) (hplain : p.config.optimizer = false) :
    q.latest.map Instruction.operation =
      (tokens.map Token.operation).reverse ++ p.latest.map Instruction.operation := by
  induction h with
  | nil => rfl
  | cons _ h _ ih =>
    rw [ih (h.config_eq ▸ hplain), h.plain_operation hplain, List.map_cons, List.reverse_cons,
      List.append_assoc, List.singleton_append]

end TokensPushed

namespace Assembler

variable {a : Assembler α} {p q : Program α} {texts : List String}

/-- Texts that were pushed were read, and their tokens were pushed in turn. -/
theorem pushAll_pushed (hbooked : p.Booked) {index : Nat}
    (hok : (a.pushAll p index texts).result = .ok q) :
    ∃ tokens, a.Reads texts tokens ∧ TokensPushed p tokens q := by
  induction texts generalizing p index with
  | nil =>
    cases hok
    exact ⟨[], .nil, .nil⟩
  | cons text rest ih =>
    unfold pushAll at hok
    split at hok
    · contradiction
    · rename_i t ht
      have hvalid := token_valid ht
      cases hpush : pushToken p t with
      | mk events result =>
        rw [hpush] at hok
        cases result with
        | error c => contradiction
        | ok r =>
          have hpushed : TokenPushed p t r :=
            pushToken_pushed hbooked hvalid (congrArg Prod.snd hpush)
          obtain ⟨tokens, hreads, hrest⟩ := ih (hpushed.booked hbooked) hok
          exact ⟨t :: tokens, .cons ht hreads, .cons hvalid hpushed hrest⟩

/-- Texts that are read as tokens whose depths count up are pushed. -/
theorem pushAll_accepts (hbooked : p.Booked) (index : Nat) {tokens : List (Token α)} {d : Int}
    (hreads : a.Reads texts tokens) (hdepth : recognize? p.stackPos tokens = some d) :
    ∃ q, (a.pushAll p index texts).result = .ok q ∧ TokensPushed p tokens q := by
  induction hreads generalizing p index with
  | nil => exact ⟨p, rfl, .nil⟩
  | @cons text t texts tokens ht hreads ih =>
    obtain ⟨e, he, hrest⟩ := Option.bind_eq_some_iff.mp hdepth
    have hvalid := token_valid ht
    obtain ⟨r, hr⟩ := pushToken_accepts hbooked hvalid he
    have hpushed := pushToken_pushed hbooked hvalid hr
    have hmoved : r.stackPos = e :=
      Option.some.inj ((hpushed.depth?_eq hbooked hvalid).symm.trans he)
    obtain ⟨q, hq, htokens⟩ :=
      ih (hpushed.booked hbooked) (index + 1) (by rw [hmoved]; exact hrest)
    refine ⟨q, ?_, .cons hvalid hpushed htokens⟩
    cases hpush : pushToken p t with
    | mk events result =>
      rw [hpush] at hr
      cases hr
      simp only [pushAll, ht, hpush, hq]

/-- An expression that is accepted is not blank, its texts are read, and counting the depth ends at
one slot; the program is sealed after the tokens were pushed. -/
theorem assemble_pushed {source : String} {p : Program α}
    (hok : (a.assemble source).result = .ok p) :
    (trimChars source.toList).isEmpty = false ∧
      ∃ tokens q, a.Reads (a.tokens source) tokens ∧ recognize? 0 tokens = some 1 ∧
        TokensPushed a.start tokens q ∧ q.stackPos = 1 ∧ p = q.finalize.program := by
  unfold assemble at hok
  split at hok
  · contradiction
  · rename_i hblank
    dsimp only at hok
    split at hok
    · contradiction
    · rename_i q hq
      split at hok
      · contradiction
      · rename_i hone
        have hone : q.stackPos = 1 := Decidable.not_not.mp hone
        have hstart : a.start.Booked := .start a.config a.draws
        obtain ⟨tokens, hreads, hpushed⟩ := pushAll_pushed hstart hq
        have hdepth := hpushed.recognize?_eq hstart
        rw [hone] at hdepth
        exact ⟨by simpa using hblank, tokens, q, hreads, hdepth, hpushed, hone,
          (Except.ok.inj hok).symm⟩

/-- An expression whose texts are pushed up to one slot is sealed. -/
theorem assemble_eq {source : String} (hblank : (trimChars source.toList).isEmpty = false)
    (htexts : a.tokens source = texts) (hpushed : (a.pushAll a.start 0 texts).result = .ok q)
    (hone : q.stackPos = 1) : (a.assemble source).result = .ok q.finalize.program := by
  rw [assemble, if_neg (by simp [hblank]), htexts]
  simp only [hpushed, hone, ne_eq, not_true_eq_false, if_false]

/-- An expression is accepted if it is not blank, its texts are read, and counting the depth ends at
one slot. -/
theorem assemble_accepts {source : String} {tokens : List (Token α)}
    (hblank : (trimChars source.toList).isEmpty = false) (hreads : a.Reads (a.tokens source) tokens)
    (hdepth : recognize? 0 tokens = some 1) :
    ∃ q, TokensPushed a.start tokens q ∧ (a.assemble source).result = .ok q.finalize.program := by
  have hstart : a.start.Booked := .start a.config a.draws
  obtain ⟨q, hq, hpushed⟩ := pushAll_accepts hstart 0 hreads hdepth
  have hone : q.stackPos = 1 :=
    Option.some.inj ((hpushed.recognize?_eq hstart).symm.trans hdepth)
  exact ⟨q, hpushed, assemble_eq hblank rfl hq hone⟩

end Assembler

/-- An assembler for machine numbers with two variables, which reads one number. -/
def pairAssembler (config : Config) : Assembler Float where
  slots := [("x", "x"), ("y", "y")]
  config
  number := fun text => if text = "2" then some 2 else none
  draws := fun _ => 0

end StackCode
