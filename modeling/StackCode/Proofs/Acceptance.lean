import Mathlib.Data.List.DropRight
import StackCode.Proofs.Tokens

/-!
# Which expressions are accepted

A text is a number, an assignment, a call of a named routine or a variable, in this order. Each kind
asks for a depth and leaves another one. The rules are stated here on texts and depths alone:
`Admits` for what each kind does, `Rejects` for what is wrong with a text otherwise. An expression
is accepted if the depths count up to one, and else the first text that is rejected is reported.

Every text at every depth is admitted or rejected, and reading it agrees with the rule that applies,
so no two rules clash. No rule looks at the settings of a program. Folding moves the depth as the
token does, hence the assembler keeps to the rules whatever the settings are.
-/

namespace StackCode

universe u

variable {α : Type u}

/-- Only white space. -/
def Blank (source : String) : Prop := ∀ c ∈ source.toList, isBlank c = true

/-- Nothing is left of a blank text without the blanks at its ends, and only of such a one. -/
theorem isEmpty_trimChars_iff {source : String} :
    (trimChars source.toList).isEmpty = true ↔ Blank source := by
  rw [trimChars, List.isEmpty_reverse, List.isEmpty_iff, List.dropWhile_eq_nil_iff]
  simp only [List.mem_reverse]
  rw [← List.dropWhile_eq_nil_iff, List.dropWhile_idempotent, List.dropWhile_eq_nil_iff]
  rfl

/-- A text without a colon is not cut. -/
theorem cutAtColon?_eq_none {cs : List Char} (h : ':' ∉ cs) : cutAtColon? cs = none := by
  induction cs with
  | nil => rfl
  | cons c rest ih =>
    obtain ⟨hc, hrest⟩ := not_or.mp (mt List.mem_cons.mpr h)
    simp [cutAtColon?, ih hrest, Ne.symm hc]

/-- A text is cut at its last colon. -/
theorem cutAtColon?_append (name : List Char) {count : List Char} (hlast : ':' ∉ count) :
    cutAtColon? (name ++ ':' :: count) = some (name, count) := by
  induction name with
  | nil => simp [cutAtColon?, cutAtColon?_eq_none hlast]
  | cons c rest ih => simp [cutAtColon?, ih]

/-- A text is a name and a count, with the last colon between them. -/
structure Counted (text name count : String) : Prop where
  text_eq : text.toList = name.toList ++ ':' :: count.toList
  last : ':' ∉ count.toList

/-- A text with a colon is a name and a count. -/
theorem exists_counted {text : String} (h : ':' ∈ text.toList) :
    ∃ name count, Counted text name count := by
  obtain ⟨after, before, heq, hlast⟩ := List.eq_append_cons_of_mem (List.mem_reverse.mpr h)
  refine ⟨String.ofList before.reverse, String.ofList after.reverse, ?_, ?_⟩
  · rw [← List.reverse_reverse text.toList, heq]
    simp
  · simpa using hlast

/-- A name without a count. -/
theorem splitCount_plain {text : String} (h : ':' ∉ text.toList) :
    splitCount text = .ok (text, none) := by
  simp only [splitCount, cutAtColon?_eq_none h]

namespace Counted

variable {text name count : String}

/-- The parts of a text at its last colon. -/
theorem cutAtColon?_eq (h : Counted text name count) :
    cutAtColon? text.toList = some (name.toList, count.toList) := by
  rw [h.text_eq, cutAtColon?_append _ h.last]

/-- A count that cannot be read. -/
theorem splitCount_unread (h : Counted text name count) {e : ReadError}
    (hcount : readCount count = .error e) : splitCount text = .error (.badCount (some e)) := by
  simp only [splitCount, h.cutAtColon?_eq, String.ofList_toList, hcount]

/-- A count below zero. -/
theorem splitCount_negative (h : Counted text name count) {n : Int}
    (hcount : readCount count = .ok n) (hn : n < 0) :
    splitCount text = .error (.badCount none) := by
  simp only [splitCount, h.cutAtColon?_eq, String.ofList_toList, hcount, if_pos hn]

/-- A name with its count. -/
theorem splitCount_ok (h : Counted text name count) {n : Nat}
    (hcount : readCount count = .ok (n : Int)) : splitCount text = .ok (name, some n) := by
  simp only [splitCount, h.cutAtColon?_eq, String.ofList_toList, hcount,
    if_neg (Int.not_lt.mpr (Int.natCast_nonneg n)), Int.toNat_natCast]

end Counted

namespace Assembler

/-- A text that is neither empty nor a number nor an assignment. -/
structure Word (a : Assembler α) (text : String) : Prop where
  nonempty : text ≠ ""
  number : a.number text = none
  unmarked : ∀ rest, text.toList ≠ '=' :: rest

/-- A text that assigns to a name. -/
structure Assigns (a : Assembler α) (text name : String) : Prop where
  number : a.number text = none
  text_eq : text.toList = '=' :: name.toList

/-- A text that calls a named routine on a number of operands. -/
inductive Calls (a : Assembler α) (text : String) : CatalogEntry → Nat → Prop
  | fixed {entry : CatalogEntry} {n : Nat} (hword : a.Word text) (hplain : ':' ∉ text.toList)
      (hentry : lookup? text = some entry) (harity : entry.arity = some n) : Calls a text entry n
  | counted {name count : String} {entry : CatalogEntry} {n : Nat} (hword : a.Word text)
      (hcounted : Counted text name count) (hcount : readCount count = .ok (n : Int))
      (hentry : lookup? name = some entry) (harity : entry.arity = none ∨ entry.arity = some n) :
      Calls a text entry n

/-- What a text does to the depth. -/
inductive Admits (a : Assembler α) (depth : Int) (text : String) : Int → Prop
  | number {x : α} (hnonempty : text ≠ "") (hnumber : a.number text = some x) :
      Admits a depth text (depth + 1)
  | assign {name : String} {slot : Slot} (h : a.Assigns text name)
      (hbound : a.slots.lookup name = some slot) (htwo : 2 ≤ depth) :
      Admits a depth text (depth - 1)
  | call {entry : CatalogEntry} {n : Nat} (h : a.Calls text entry n) (hle : n ≤ depth) :
      Admits a depth text (depth - n + 1)
  | slot {slot : Slot} (hword : a.Word text) (hplain : ':' ∉ text.toList)
      (hentry : lookup? text = none) (hbound : a.slots.lookup text = some slot) :
      Admits a depth text (depth + 1)

/-- What is wrong with a text at a depth. -/
inductive Rejects (a : Assembler α) (depth : Int) (text : String) : Complaint → Prop
  | empty (h : text = "") : Rejects a depth text .emptyToken
  | unbound {name : String} (h : a.Assigns text name) (hunbound : a.slots.lookup name = none) :
      Rejects a depth text (.unboundTarget name)
  | short {name : String} {slot : Slot} (h : a.Assigns text name)
      (hbound : a.slots.lookup name = some slot) (hfew : depth < 2) :
      Rejects a depth text .shortAssignment
  | unread {name count : String} {e : ReadError} (hword : a.Word text)
      (h : Counted text name count) (hcount : readCount count = .error e) :
      Rejects a depth text (.badCount (some e))
  | negative {name count : String} {n : Int} (hword : a.Word text) (h : Counted text name count)
      (hcount : readCount count = .ok n) (hn : n < 0) : Rejects a depth text (.badCount none)
  | unknownFunction {name count : String} {n : Nat} (hword : a.Word text)
      (h : Counted text name count) (hcount : readCount count = .ok (n : Int))
      (hentry : lookup? name = none) : Rejects a depth text (.unknownFunction name)
  | wrongCount {name count : String} {entry : CatalogEntry} {fixed n : Nat} (hword : a.Word text)
      (h : Counted text name count) (hcount : readCount count = .ok (n : Int))
      (hentry : lookup? name = some entry) (harity : entry.arity = some fixed) (hne : fixed ≠ n) :
      Rejects a depth text (.wrongCount entry.name fixed n)
  | countNeeded {entry : CatalogEntry} (hword : a.Word text) (hplain : ':' ∉ text.toList)
      (hentry : lookup? text = some entry) (harity : entry.arity = none) :
      Rejects a depth text (.countNeeded entry.name)
  | missingOperands {entry : CatalogEntry} {n : Nat} (h : a.Calls text entry n)
      (hfew : depth < n) : Rejects a depth text (.missingOperands entry.name n depth)
  | unknownName (hword : a.Word text) (hplain : ':' ∉ text.toList) (hentry : lookup? text = none)
      (hunbound : a.slots.lookup text = none) : Rejects a depth text (.unknownName text)

/-- The depth counts from one value to another along texts that are all admitted. -/
inductive Counts (a : Assembler α) : Int → List String → Int → Prop
  | nil {d : Int} : Counts a d [] d
  | cons {d e f : Int} {text : String} {rest : List String} (h : a.Admits d text e)
      (hrest : Counts a e rest f) : Counts a d (text :: rest) f

variable {a : Assembler α} {text name : String} {depth : Int}

/-- A call is admitted or lacks operands. -/
theorem Calls.admits_or_rejects {entry : CatalogEntry} {n : Nat} (h : a.Calls text entry n)
    (depth : Int) : (∃ d, a.Admits depth text d) ∨ ∃ c, a.Rejects depth text c := by
  rcases Int.lt_or_le depth n with hfew | hle
  · exact Or.inr ⟨_, .missingOperands h hfew⟩
  · exact Or.inl ⟨_, .call h hle⟩

/-- A name without a count is admitted or rejected. -/
theorem Word.admits_or_rejects_plain (hword : a.Word text) (hplain : ':' ∉ text.toList)
    (depth : Int) : (∃ d, a.Admits depth text d) ∨ ∃ c, a.Rejects depth text c := by
  cases hentry : lookup? text with
  | none =>
    cases hbound : a.slots.lookup text with
    | none => exact Or.inr ⟨_, .unknownName hword hplain hentry hbound⟩
    | some slot => exact Or.inl ⟨_, .slot hword hplain hentry hbound⟩
  | some entry =>
    cases harity : entry.arity with
    | none => exact Or.inr ⟨_, .countNeeded hword hplain hentry harity⟩
    | some n => exact (Calls.fixed hword hplain hentry harity).admits_or_rejects depth

/-- A name with a count is admitted or rejected. -/
theorem Word.admits_or_rejects_counted (hword : a.Word text) {count : String}
    (h : Counted text name count) (depth : Int) :
    (∃ d, a.Admits depth text d) ∨ ∃ c, a.Rejects depth text c := by
  cases hcount : readCount count with
  | error e => exact Or.inr ⟨_, .unread hword h hcount⟩
  | ok n =>
    rcases Int.lt_or_le n 0 with hn | hn
    · exact Or.inr ⟨_, .negative hword h hcount hn⟩
    · obtain ⟨n, rfl⟩ := Int.eq_ofNat_of_zero_le hn
      cases hentry : lookup? name with
      | none => exact Or.inr ⟨_, .unknownFunction hword h hcount hentry⟩
      | some entry =>
        by_cases harity : entry.arity = none ∨ entry.arity = some n
        · exact (Calls.counted hword h hcount hentry harity).admits_or_rejects depth
        · obtain ⟨hfixed, hne⟩ := not_or.mp harity
          obtain ⟨fixed, hsome⟩ := Option.ne_none_iff_exists'.mp hfixed
          refine Or.inr ⟨_, .wrongCount hword h hcount hentry hsome ?_⟩
          rintro rfl
          exact hne hsome

/-- Every text is admitted or rejected at every depth. -/
theorem admits_or_rejects (a : Assembler α) (depth : Int) (text : String) :
    (∃ d, a.Admits depth text d) ∨ ∃ c, a.Rejects depth text c := by
  by_cases hempty : text = ""
  · exact Or.inr ⟨_, .empty hempty⟩
  · cases hnumber : a.number text with
    | some x => exact Or.inl ⟨_, .number hempty hnumber⟩
    | none =>
      by_cases hmarked : ∃ rest, text.toList = '=' :: rest
      · obtain ⟨rest, hrest⟩ := hmarked
        have hassigns : a.Assigns text (String.ofList rest) := ⟨hnumber, by simpa using hrest⟩
        cases hbound : a.slots.lookup (String.ofList rest) with
        | none => exact Or.inr ⟨_, .unbound hassigns hbound⟩
        | some slot =>
          rcases Int.lt_or_le depth 2 with hfew | htwo
          · exact Or.inr ⟨_, .short hassigns hbound hfew⟩
          · exact Or.inl ⟨_, .assign hassigns hbound htwo⟩
      · have hword : a.Word text := ⟨hempty, hnumber, not_exists.mp hmarked⟩
        by_cases hplain : ':' ∈ text.toList
        · obtain ⟨name, count, hcounted⟩ := exists_counted hplain
          exact hword.admits_or_rejects_counted hcounted depth
        · exact hword.admits_or_rejects_plain hplain depth

/-- A number is read as a literal. -/
theorem token_number {x : α} (hnonempty : text ≠ "") (hnumber : a.number text = some x) :
    a.token text = .ok (.literal x) := by
  simp only [token, if_neg hnonempty, hnumber]

namespace Assigns

/-- An assignment is not empty. -/
theorem nonempty (h : a.Assigns text name) : text ≠ "" := by
  rintro rfl
  exact absurd h.text_eq (by simp)

/-- An assignment to a bound name is read. -/
theorem token_bound (h : a.Assigns text name) {slot : Slot}
    (hbound : a.slots.lookup name = some slot) : a.token text = .ok (.assign name slot) := by
  simp only [token, if_neg h.nonempty, h.number, h.text_eq, String.ofList_toList, hbound]

/-- An assignment to another name is not read. -/
theorem token_unbound (h : a.Assigns text name) (hunbound : a.slots.lookup name = none) :
    a.token text = .error (.unboundTarget name) := by
  simp only [token, if_neg h.nonempty, h.number, h.text_eq, String.ofList_toList, hunbound]

end Assigns

namespace Word

variable {count : Option Nat}

/-- A word with a bad count is not read. -/
theorem token_error (h : a.Word text) {c : Complaint} (hsplit : splitCount text = .error c) :
    a.token text = .error c := by
  simp [token, h.nonempty, h.number, h.unmarked, hsplit]

/-- A word that names a routine is read as a call. -/
theorem token_call (h : a.Word text) {entry : CatalogEntry}
    (hsplit : splitCount text = .ok (name, count)) (hentry : lookup? name = some entry) :
    a.token text = (entry.operands count).map (.call entry) := by
  simp [token, h.nonempty, h.number, h.unmarked, hsplit, hentry]

/-- A word with a count that names no routine is not read. -/
theorem token_unknownFunction (h : a.Word text) {n : Nat}
    (hsplit : splitCount text = .ok (name, some n)) (hentry : lookup? name = none) :
    a.token text = .error (.unknownFunction name) := by
  simp [token, h.nonempty, h.number, h.unmarked, hsplit, hentry]

/-- A word that is bound and names no routine is read as a variable. -/
theorem token_slot (h : a.Word text) {slot : Slot} (hplain : ':' ∉ text.toList)
    (hentry : lookup? text = none) (hbound : a.slots.lookup text = some slot) :
    a.token text = .ok (.slot text slot) := by
  simp [token, h.nonempty, h.number, h.unmarked, splitCount_plain hplain, hentry, hbound]

/-- A word that is neither bound nor names a routine is not read. -/
theorem token_unknownName (h : a.Word text) (hplain : ':' ∉ text.toList)
    (hentry : lookup? text = none) (hunbound : a.slots.lookup text = none) :
    a.token text = .error (.unknownName text) := by
  simp [token, h.nonempty, h.number, h.unmarked, splitCount_plain hplain, hentry, hunbound]

end Word

/-- A call is read with its operand count. -/
theorem Calls.token_eq {entry : CatalogEntry} {n : Nat} (h : a.Calls text entry n) :
    a.token text = .ok (.call entry n) := by
  cases h with
  | fixed hword hplain hentry harity =>
    rw [hword.token_call (splitCount_plain hplain) hentry]
    simp only [CatalogEntry.operands, harity, Except.map]
  | counted hword hcounted hcount hentry harity =>
    rw [hword.token_call (hcounted.splitCount_ok hcount) hentry]
    rcases harity with harity | harity
    · simp only [CatalogEntry.operands, harity, Except.map]
    · simp only [CatalogEntry.operands, harity, Except.map, if_true]

end Assembler

/-- The depth that a token leaves, or what it lacks. -/
def Token.weigh (depth : Int) : Token α → Except Complaint Int
  | .literal _ => .ok (depth + 1)
  | .slot _ _ => .ok (depth + 1)
  | .call entry arity =>
    if depth < arity then .error (.missingOperands entry.name arity depth)
    else .ok (depth - arity + 1)
  | .assign _ _ => if depth < 2 then .error .shortAssignment else .ok (depth - 1)

namespace Assembler

/-- The depth that a text leaves, or what is wrong with it. -/
def weigh (a : Assembler α) (depth : Int) (text : String) : Except Complaint Int :=
  (a.token text).bind (Token.weigh depth)

variable {a : Assembler α} {text : String} {depth : Int}

/-- A text that is admitted is read and leaves the depth of its rule. -/
theorem Admits.weigh_eq {d : Int} (h : a.Admits depth text d) : a.weigh depth text = .ok d := by
  unfold weigh
  cases h with
  | number hnonempty hnumber =>
    rw [token_number hnonempty hnumber]
    rfl
  | assign h hbound htwo =>
    rw [h.token_bound hbound]
    exact if_neg (Int.not_lt.mpr htwo)
  | call h hle =>
    rw [h.token_eq]
    exact if_neg (Int.not_lt.mpr hle)
  | slot hword hplain hentry hbound =>
    rw [hword.token_slot hplain hentry hbound]
    rfl

/-- A text that is rejected is not read or finds too few operands, as its rule says. -/
theorem Rejects.weigh_eq {c : Complaint} (h : a.Rejects depth text c) :
    a.weigh depth text = .error c := by
  unfold weigh
  cases h with
  | empty h => simp only [token, if_pos h, Except.bind]
  | unbound h hunbound =>
    rw [h.token_unbound hunbound]
    rfl
  | short h hbound hfew =>
    rw [h.token_bound hbound]
    exact if_pos hfew
  | unread hword h hcount =>
    rw [hword.token_error (h.splitCount_unread hcount)]
    rfl
  | negative hword h hcount hn =>
    rw [hword.token_error (h.splitCount_negative hcount hn)]
    rfl
  | unknownFunction hword h hcount hentry =>
    rw [hword.token_unknownFunction (h.splitCount_ok hcount) hentry]
    rfl
  | wrongCount hword h hcount hentry harity hne =>
    rw [hword.token_call (h.splitCount_ok hcount) hentry]
    simp only [CatalogEntry.operands, harity, if_neg hne, Except.map, Except.bind]
  | countNeeded hword hplain hentry harity =>
    rw [hword.token_call (splitCount_plain hplain) hentry]
    simp only [CatalogEntry.operands, harity, Except.map, Except.bind]
  | missingOperands h hfew =>
    rw [h.token_eq]
    exact if_pos hfew
  | unknownName hword hplain hentry hunbound =>
    rw [hword.token_unknownName hplain hentry hunbound]
    rfl

/-- A text leaves a depth exactly if it is admitted. -/
theorem weigh_eq_ok_iff {d : Int} : a.weigh depth text = .ok d ↔ a.Admits depth text d := by
  refine ⟨fun h => ?_, Admits.weigh_eq⟩
  obtain ⟨e, hadmits⟩ | ⟨c, hrejects⟩ := a.admits_or_rejects depth text
  · cases hadmits.weigh_eq.symm.trans h
    exact hadmits
  · cases hrejects.weigh_eq.symm.trans h

/-- A text is complained about exactly if it is rejected. -/
theorem weigh_eq_error_iff {c : Complaint} :
    a.weigh depth text = .error c ↔ a.Rejects depth text c := by
  refine ⟨fun h => ?_, Rejects.weigh_eq⟩
  obtain ⟨e, hadmits⟩ | ⟨c, hrejects⟩ := a.admits_or_rejects depth text
  · cases hadmits.weigh_eq.symm.trans h
  · cases hrejects.weigh_eq.symm.trans h
    exact hrejects

/-- The depth after texts, or the complaint about the first one that is rejected, with the position
of the first text given. -/
def weighAll (a : Assembler α) (depth : Int) (index : Nat) : List String → Except SyntaxError Int
  | [] => .ok depth
  | text :: rest =>
    match a.weigh depth text with
    | .error c => .error ⟨some index, text, c⟩
    | .ok d => a.weighAll d (index + 1) rest

/-- The depth counts up along texts exactly if all are admitted. -/
theorem weighAll_eq_ok_iff (index : Nat) {texts : List String} {d : Int} :
    a.weighAll depth index texts = .ok d ↔ a.Counts depth texts d := by
  induction texts generalizing depth index with
  | nil =>
    constructor
    · rintro ⟨⟩
      exact .nil
    · rintro ⟨⟩
      rfl
  | cons text rest ih =>
    unfold weighAll
    constructor
    · intro h
      split at h
      · contradiction
      · rename_i e hweigh
        exact .cons (weigh_eq_ok_iff.mp hweigh) ((ih _).mp h)
    · rintro (_ | ⟨hadmits, hrest⟩)
      simp only [hadmits.weigh_eq]
      exact (ih _).mpr hrest

/-- Texts are complained about exactly if one of them is rejected after all before it were admitted,
and the complaint is about that one. -/
theorem weighAll_eq_error_iff (index : Nat) {texts : List String} {e : SyntaxError} :
    a.weighAll depth index texts = .error e ↔
      ∃ before text after d c, texts = before ++ text :: after ∧ a.Counts depth before d ∧
        a.Rejects d text c ∧ e = ⟨some (index + before.length), text, c⟩ := by
  induction texts generalizing depth index with
  | nil =>
    constructor
    · intro h
      contradiction
    · rintro ⟨before, text, after, d, c, heq, -⟩
      exact absurd heq (by simp)
  | cons first rest ih =>
    unfold weighAll
    constructor
    · intro h
      split at h
      · rename_i c hweigh
        cases h
        exact ⟨[], first, rest, depth, c, rfl, .nil, weigh_eq_error_iff.mp hweigh, rfl⟩
      · rename_i m hweigh
        obtain ⟨before, text, after, d, c, rfl, hcounts, hrejects, rfl⟩ := (ih _).mp h
        refine ⟨first :: before, text, after, d, c, rfl,
          .cons (weigh_eq_ok_iff.mp hweigh) hcounts, hrejects, ?_⟩
        rw [List.length_cons, Nat.add_right_comm, Nat.add_assoc]
    · rintro ⟨before, text, after, d, c, heq, hcounts, hrejects, rfl⟩
      cases hcounts with
      | nil =>
        obtain ⟨rfl, -⟩ := List.cons.inj heq
        simp only [hrejects.weigh_eq, List.length_nil, Nat.add_zero]
      | @cons _ m _ _ before hadmits hcounts =>
        obtain ⟨rfl, rfl⟩ := List.cons.inj heq
        simp only [hadmits.weigh_eq]
        refine (ih _).mpr ⟨before, text, after, d, c, rfl, hcounts, hrejects, ?_⟩
        rw [List.length_cons, Nat.add_right_comm, Nat.add_assoc]

/-- What the rules say of an expression. -/
def judge (a : Assembler α) (source : String) : Except SyntaxError Unit :=
  if (trimChars source.toList).isEmpty then .error Complaint.emptyExpression.overall
  else (a.weighAll 0 0 (a.tokens source)).bind fun d =>
    if d = 1 then .ok () else .error (Complaint.leftover d).overall

/-- The rules accept an expression exactly if it is not blank and the depth counts up to one. -/
theorem judge_eq_ok_iff {source : String} :
    a.judge source = .ok () ↔ ¬Blank source ∧ a.Counts 0 (a.tokens source) 1 := by
  rw [judge, ← isEmpty_trimChars_iff, ← weighAll_eq_ok_iff 0]
  split
  · rename_i hblank
    simp [hblank]
  · rename_i hblank
    cases a.weighAll 0 0 (a.tokens source) with
    | error e => simp [Except.bind]
    | ok d => by_cases hone : d = 1 <;> simp [Except.bind, hone, hblank]

/-- The rules complain about an expression that is blank, about the first text that is rejected, or
about the depth in the end. -/
theorem judge_eq_error_iff {source : String} {e : SyntaxError} :
    a.judge source = .error e ↔
      Blank source ∧ e = Complaint.emptyExpression.overall ∨
      ¬Blank source ∧
        ((∃ before text after d c, a.tokens source = before ++ text :: after ∧
            a.Counts 0 before d ∧ a.Rejects d text c ∧ e = ⟨some before.length, text, c⟩) ∨
          ∃ d, a.Counts 0 (a.tokens source) d ∧ d ≠ 1 ∧ e = (Complaint.leftover d).overall) := by
  have hrejected : a.weighAll 0 0 (a.tokens source) = .error e ↔ _ := weighAll_eq_error_iff 0
  simp only [Nat.zero_add] at hrejected
  rw [← hrejected]
  simp only [judge, ← isEmpty_trimChars_iff, ← weighAll_eq_ok_iff 0]
  split
  · rename_i hblank
    simp [hblank, eq_comm]
  · rename_i hblank
    cases a.weighAll 0 0 (a.tokens source) with
    | error e' => simp [Except.bind, hblank]
    | ok d => by_cases hone : d = 1 <;> simp [Except.bind, hone, hblank, eq_comm]

/-- The rules do not look at the settings. -/
theorem weighAll_config (a : Assembler α) (config : Config) (depth : Int) (index : Nat)
    (texts : List String) :
    { a with config }.weighAll depth index texts = a.weighAll depth index texts := by
  induction texts generalizing depth index with
  | nil => rfl
  | cons text rest ih =>
    have hweigh : { a with config }.weigh depth text = a.weigh depth text := rfl
    simp only [weighAll, hweigh, ih]

/-- What the rules say of an expression does not depend on the settings. -/
theorem judge_config (a : Assembler α) (config : Config) (source : String) :
    { a with config }.judge source = a.judge source := by
  have htokens : { a with config }.tokens source = a.tokens source := rfl
  simp only [judge, weighAll_config, htokens]

end Assembler

/-- No rule complains that a program refused a token. -/
theorem Assembler.Rejects.ne_refused {a : Assembler α} {depth : Int} {text : String} {c : Complaint}
    (h : a.Rejects depth text c) (m : Misuse) : c ≠ .refused m := by
  rintro rfl
  cases h

/-- Only a refusal by a program is an internal error. -/
theorem SyntaxError.isInternal_eq_false {e : SyntaxError} (h : ∀ m, e.complaint ≠ .refused m) :
    e.failure.isInternal = false := by
  obtain ⟨position, token, complaint⟩ := e
  cases complaint with
  | refused m => exact absurd rfl (h m)
  | badCount cause => cases cause <;> rfl
  | _ => rfl

/-- A complaint of the rules is no internal error. -/
theorem Assembler.judge_isInternal {a : Assembler α} {source : String} {e : SyntaxError}
    (h : a.judge source = .error e) : e.failure.isInternal = false := by
  apply SyntaxError.isInternal_eq_false
  obtain ⟨-, rfl⟩ | ⟨-, ⟨_, _, _, _, c, -, -, hrejects, rfl⟩ | ⟨d, -, -, rfl⟩⟩ :=
    judge_eq_error_iff.mp h
  · simp [Complaint.overall]
  · exact hrejects.ne_refused
  · simp [Complaint.overall]

section

variable [Arithmetic α]

/-- A token weighs as much as its operation moves the depth. -/
theorem Token.weigh_eq_ok_iff {t : Token α} {depth d : Int} :
    t.weigh depth = .ok d ↔ t.operation.depth? depth = some d := by
  cases t with
  | literal x => simp [weigh, operation, Operation.depth?]
  | slot name source => simp [weigh, operation, Operation.depth?]
  | call entry arity =>
    by_cases hfew : depth < arity
    · simp [weigh, operation, Operation.depth?, CatalogEntry.call, hfew, Int.not_le.mpr hfew]
    · simp [weigh, operation, Operation.depth?, CatalogEntry.call, hfew, Int.not_lt.mp hfew]
  | assign name target =>
    by_cases hfew : depth < 2
    · simp [weigh, operation, Operation.depth?, hfew, Int.not_le.mpr hfew]
    · simp [weigh, operation, Operation.depth?, hfew, Int.not_lt.mp hfew]

namespace Assembler

variable {a : Assembler α} {p : Program α} {t : Token α}

/-- Pushing a token moves the depth of the program by the rule of the token, or fails by it. -/
theorem pushToken_weigh (hbooked : p.Booked) (hvalid : t.Valid) :
    (pushToken p t).2.map Program.stackPos = t.weigh p.stackPos := by
  cases hresult : (pushToken p t).2 with
  | ok q =>
    have hdepth := (pushToken_pushed hbooked hvalid hresult).depth?_eq hbooked hvalid
    exact (Token.weigh_eq_ok_iff.mpr hdepth).symm
  | error c =>
    -- A token that finds its operands is accepted, so it lacks them and that is the complaint.
    have hmissing : ∀ d, t.operation.depth? p.stackPos ≠ some d := by
      intro d hdepth
      obtain ⟨q, hq⟩ := pushToken_accepts hbooked hvalid hdepth
      rw [hresult] at hq
      contradiction
    cases t with
    | literal x => exact absurd rfl (hmissing _)
    | slot name source => exact absurd rfl (hmissing _)
    | call entry arity =>
      have hfew : p.stackPos < arity := by
        by_contra hle
        exact hmissing _ (Operation.depth?_call_eq_some.mpr ⟨Int.not_lt.mp hle, rfl⟩)
      simp only [pushToken, if_pos hfew] at hresult
      cases hresult
      exact (if_pos hfew).symm
    | assign name target =>
      have hfew : p.stackPos < 2 := by
        by_contra htwo
        exact hmissing _ (Operation.depth?_assign_eq_some.mpr ⟨Int.not_lt.mp htwo, rfl⟩)
      simp only [pushToken, if_pos hfew] at hresult
      cases hresult
      exact (if_pos hfew).symm

/-- Pushing texts moves the depth of the program by their rules, or fails by them. -/
theorem pushAll_weighAll (hbooked : p.Booked) (index : Nat) (texts : List String) :
    (a.pushAll p index texts).result.map Program.stackPos = a.weighAll p.stackPos index texts := by
  induction texts generalizing p index with
  | nil => rfl
  | cons text rest ih =>
    unfold pushAll weighAll weigh
    cases htoken : a.token text with
    | error c => rfl
    | ok t =>
      have hvalid := token_valid htoken
      have hweigh := pushToken_weigh hbooked hvalid
      cases hpush : pushToken p t with
      | mk events result =>
        rw [hpush] at hweigh
        cases result with
        | error c =>
          change Except.error c = _ at hweigh
          simp only [hpush, Except.bind, ← hweigh]
          rfl
        | ok q =>
          change Except.ok q.stackPos = _ at hweigh
          simp only [hpush, Except.bind, ← hweigh]
          have hpushed := pushToken_pushed hbooked hvalid (congrArg Prod.snd hpush)
          exact ih (hpushed.booked hbooked) (index + 1)

/-- An expression is assembled exactly if the rules accept it, and fails as they say. -/
theorem assemble_judge (a : Assembler α) (source : String) :
    (a.assemble source).result.map (fun _ => ()) = a.judge source := by
  unfold assemble judge
  by_cases hblank : (trimChars source.toList).isEmpty = true
  · simp only [if_pos hblank]
    rfl
  · simp only [if_neg hblank]
    have hdepth : (a.pushAll a.start 0 (a.tokens source)).result.map Program.stackPos =
        a.weighAll 0 0 (a.tokens source) := pushAll_weighAll (.start a.config a.draws) 0 _
    rw [← hdepth]
    cases hpushed : (a.pushAll a.start 0 (a.tokens source)).result with
    | error e => rfl
    | ok p =>
      by_cases hone : p.stackPos = 1
      · simp [Except.map, Except.bind, hone]
      · simp [Except.map, Except.bind, hone]

end Assembler

/-- An expression is accepted by counting the depth alone. Whatever the delimiter, the variables and
the settings, it is assembled exactly if it is not blank and all its texts are admitted in turn,
from no value to one. Otherwise the error is about the blank expression, about the first text that
is rejected, at its position, or about the values that are left. It is never an internal error. So
whether an expression is accepted, and with which error it is not, is the same for all settings. -/
theorem acceptance_counts_depth (a : Assembler α) (source : String) (config : Config) :
    let result := ({ a with config }.assemble source).result
    ((∃ p, result = .ok p) ↔ ¬Blank source ∧ a.Counts 0 (a.tokens source) 1) ∧
      (∀ e, result = .error e ↔
        Blank source ∧ e = Complaint.emptyExpression.overall ∨
        ¬Blank source ∧
          ((∃ before text after d c, a.tokens source = before ++ text :: after ∧
              a.Counts 0 before d ∧ a.Rejects d text c ∧ e = ⟨some before.length, text, c⟩) ∨
            ∃ d, a.Counts 0 (a.tokens source) d ∧ d ≠ 1 ∧ e = (Complaint.leftover d).overall)) ∧
      (∀ e, result = .error e → e.failure.isInternal = false) ∧
      ∀ other, ({ a with config := other }.assemble source).result.map (fun _ => ()) =
        result.map fun _ => () := by
  intro result
  have hjudge (other : Config) :
      ({ a with config := other }.assemble source).result.map (fun _ => ()) = a.judge source :=
    (Assembler.assemble_judge _ source).trans (a.judge_config other source)
  have hresult : result.map (fun _ => ()) = a.judge source := hjudge config
  have herror (e : SyntaxError) : result = .error e ↔ a.judge source = .error e := by
    rw [← hresult]
    cases result <;> simp [Except.map]
  refine ⟨?_, ?_, ?_, fun other => (hjudge other).trans hresult.symm⟩
  · rw [← Assembler.judge_eq_ok_iff, ← hresult]
    cases result <;> simp [Except.map]
  · exact fun e => (herror e).trans Assembler.judge_eq_error_iff
  · exact fun e he => Assembler.judge_isInternal ((herror e).mp he)

end

/-- An assembler with one number, and with variables that look like a number and like a call. -/
def wordAssembler : Assembler Float where
  slots := [("2", "two"), ("max:2", "most"), ("x", "x")]
  number := fun text => if text = "2" then some 2 else none
  draws := fun _ => 0

/-- The number and the call win over the variables of the same text, and a count that is larger than
the depth is complained about at its position. -/
theorem acceptance_counts_depth_words :
    (∃ p, ({ wordAssembler with config := { constantFolding := true } }.assemble
        "x,2,max:2").result = .ok p) ∧
      ({ wordAssembler with config := { constantFolding := true } }.assemble
        "x,2,max:3").result = .error ⟨some 2, "max:3", .missingOperands "max" 3 2⟩ := by
  have hx : wordAssembler.Admits 0 "x" 1 := .slot ⟨by decide, rfl, by simp⟩ (by decide) rfl rfl
  have hnumber : wordAssembler.Admits 1 "2" 2 := .number (by decide) rfl
  have hcounted (count : String) (hlast : ':' ∉ count.toList) :
      Counted ("max:" ++ count) "max" count := ⟨by simp, hlast⟩
  have hvisible {source : String} (h : 'x' ∈ source.toList) : ¬Blank source :=
    fun hblank => absurd (hblank 'x' h) (by decide)
  constructor
  · have htokens : wordAssembler.tokens "x,2,max:2" = ["x", "2", "max:2"] := by cbv
    have hmax : wordAssembler.Calls "max:2" _ 2 :=
      .counted ⟨by decide, rfl, by simp⟩ (hcounted "2" (by decide)) rfl rfl (Or.inl rfl)
    refine (acceptance_counts_depth wordAssembler _ _).1.mpr ⟨hvisible (by decide), ?_⟩
    rw [htokens]
    exact .cons hx <| .cons hnumber <| .cons (.call hmax (by decide)) .nil
  · have htokens : wordAssembler.tokens "x,2,max:3" = ["x", "2"] ++ "max:3" :: [] := by cbv
    have hmax : wordAssembler.Calls "max:3" _ 3 :=
      .counted ⟨by decide, rfl, by simp⟩ (hcounted "3" (by decide)) rfl rfl (Or.inl rfl)
    refine ((acceptance_counts_depth wordAssembler _ _).2.1 _).mpr (Or.inr ?_)
    exact ⟨hvisible (by decide), Or.inl ⟨["x", "2"], "max:3", [], 2, _, htokens, .cons hx (.cons hnumber .nil),
      .missingOperands hmax (by decide), rfl⟩⟩

end StackCode
