import Mathlib.Data.List.DropRight
import Mathlib.Data.Nat.Digits.Defs
import StackCode.Proofs.Verification

/-!
# What a selector tells about a program

The shape of a program is read as a binary number, a set bit for each value, with the last
instruction in the lowest bit. The number is kept in 32 bits, so it holds the last 32 instructions
and nothing tells how many calls stood in front of the first value among them. Dropping the lowest
bit loses nothing: it is clear, unless the program is a single value.

So two programs have the same selector exactly if their last 32 instructions are of the same kinds,
up to calls in front. Programs of at most 32 instructions start with a value, and the selector
determines their shape. Longer programs of different shapes can share a selector.
-/

namespace StackCode

universe u

variable {α : Type u}

/-- The bit of a kind in a selector. -/
def Kind.bit : Kind → Nat
  | .value => 1
  | _ => 0

/-- Bits are binary digits. -/
theorem bits_lt_two (kinds : List Kind) : ∀ b ∈ kinds.map Kind.bit, b < 2 := by
  intro b hb
  obtain ⟨k, -, rfl⟩ := List.mem_map.mp hb
  cases k <;> decide

/-- The kinds that a selector tells apart: the last 32, from the first value among them on. -/
def recentKinds (kinds : List Kind) : List Kind := (kinds.rtake 32).dropWhile (· == .call)

/-- There are values and calls only. -/
def ShapeOnly (kinds : List Kind) : Prop := ∀ k ∈ kinds, k = .value ∨ k = .call

/-- The kinds that a selector tells apart are among all kinds. -/
theorem ShapeOnly.recentKinds {kinds : List Kind} (h : ShapeOnly kinds) :
    ShapeOnly (recentKinds kinds) := by
  intro k hk
  exact h k (List.mem_of_mem_drop ((List.dropWhile_suffix _).mem hk))

/-- The bits of values and calls tell them apart. -/
theorem ShapeOnly.eq_of_bits {kinds others : List Kind} (h : ShapeOnly kinds)
    (hothers : ShapeOnly others) (heq : kinds.map Kind.bit = others.map Kind.bit) :
    kinds = others := by
  induction kinds generalizing others with
  | nil => exact (List.map_eq_nil_iff.mp heq.symm).symm
  | cons k rest ih =>
    cases others with
    | nil => contradiction
    | cons l more =>
      obtain ⟨hk, hrest⟩ := List.forall_mem_cons.mp h
      obtain ⟨hl, hmore⟩ := List.forall_mem_cons.mp hothers
      obtain ⟨hbit, htail⟩ := List.cons.inj heq
      have hsame : k = l := by
        rcases hk with rfl | rfl <;> rcases hl with rfl | rfl
        · rfl
        · contradiction
        · contradiction
        · rfl
      rw [hsame, ih hrest hmore htail]

/-- The shape bits of values and calls are their binary number, in 32 bits. -/
theorem ShapeOnly.shapeBits?_eq {kinds : List Kind} (h : ShapeOnly kinds) :
    shapeBits? kinds = some (Nat.ofDigits 2 (kinds.reverse.map Kind.bit) % 2 ^ 32) := by
  induction kinds using List.reverseRecOn with
  | nil => rfl
  | append_singleton before k ih =>
    obtain ⟨hbefore, hk⟩ := List.forall_mem_append.mp h
    have hbits := ih hbefore
    rw [shapeBits?] at hbits
    rw [shapeBits?, List.foldlM_append, hbits, List.reverse_append, List.reverse_singleton,
      List.singleton_append, List.map_cons, Nat.ofDigits_cons]
    rcases List.forall_mem_singleton.mp hk with rfl | rfl
    · refine congrArg some ?_
      simp only [Kind.bit]
      omega
    · refine congrArg some ?_
      simp only [Kind.bit]
      omega

/-- Calls in front do not count in a binary number. -/
theorem ofDigits_dropWhile (kinds : List Kind) :
    Nat.ofDigits 2 ((kinds.dropWhile (· == .call)).reverse.map Kind.bit) =
      Nat.ofDigits 2 (kinds.reverse.map Kind.bit) := by
  induction kinds with
  | nil => rfl
  | cons k rest ih =>
    by_cases hk : k = .call
    · subst hk
      rw [List.dropWhile_cons_of_pos rfl, ih, List.reverse_cons, List.map_append]
      exact (Nat.ofDigits_append_zero _).symm
    · rw [List.dropWhile_cons_of_neg (by simpa using hk)]

/-- The shape bits hold the kinds that a selector tells apart, the last one first. -/
theorem ShapeOnly.digits_shapeBits? {kinds : List Kind} (h : ShapeOnly kinds) {bits : Nat}
    (hbits : shapeBits? kinds = some bits) :
    Nat.digits 2 bits = (StackCode.recentKinds kinds).reverse.map Kind.bit := by
  have hnumber : bits = Nat.ofDigits 2 ((StackCode.recentKinds kinds).reverse.map Kind.bit) := by
    rw [StackCode.recentKinds, ofDigits_dropWhile, List.rtake_eq_reverse_take_reverse,
      List.reverse_reverse, List.map_take,
      ← Nat.ofDigits_mod_pow_eq_ofDigits_take 32 (by decide) _ (bits_lt_two _)]
    exact Option.some.inj (hbits.symm.trans h.shapeBits?_eq)
  rw [hnumber]
  apply Nat.digits_ofDigits 2 (by decide)
  · exact bits_lt_two _
  · -- The first kind that is told apart is not a call, so its bit is set.
    intro hne
    have hsome : StackCode.recentKinds kinds ≠ [] := by simpa using hne
    have hcall : (StackCode.recentKinds kinds).head hsome ≠ .call :=
      beq_eq_false_iff_ne.mp (List.head_dropWhile_not (· == Kind.call) hsome)
    have hfirst : (StackCode.recentKinds kinds).head hsome = .value :=
      (h.recentKinds _ (List.head_mem hsome)).resolve_right hcall
    simp [List.getLast_reverse, hfirst, Kind.bit]

/-- Kinds before an end that have a selector: values and calls, a value first. The selector is half
of the shape bits. -/
structure Selects (kinds : List Kind) (id : Nat) : Prop where
  shape : ShapeOnly kinds
  first : kinds.head? = some .value
  half : ∃ bits, shapeBits? kinds = some bits ∧ bits ≠ 0 ∧ (bits % 2 = 0 ∨ bits = 1) ∧ id = bits / 2

/-- Only values, calls and ends have shape bits. -/
theorem kinds_of_foldlM {kinds : List Kind} {acc bits : Nat}
    (h : kinds.foldlM shapeStep acc = some bits) :
    ∀ k ∈ kinds, k = .value ∨ k = .call ∨ k = .stop := by
  induction kinds generalizing acc with
  | nil => exact fun k hk => absurd hk List.not_mem_nil
  | cons k rest ih =>
    obtain ⟨next, hnext, hrest⟩ := Option.bind_eq_some_iff.mp h
    refine List.forall_mem_cons.mpr ⟨?_, ih hrest⟩
    cases k with
    | value => exact Or.inl rfl
    | call => exact Or.inr (Or.inl rfl)
    | stop => exact Or.inr (Or.inr rfl)
    | assign => contradiction
    | operator => contradiction

/-- Kinds without an end that have a selector before the end are a shape. -/
theorem selects_of_selector? {kinds : List Kind} {id : Nat} (hopen : ∀ k ∈ kinds, k ≠ .stop)
    (h : selector? (kinds ++ [.stop]) = some id) : Selects kinds id := by
  have hbits : shapeBits? (kinds ++ [.stop]) = shapeBits? kinds := by
    simp [shapeBits?, shapeStep]
  unfold selector? at h
  split at h
  · contradiction
  · rename_i hhead
    rw [hbits] at h
    split at h
    · contradiction
    · rename_i bits hsome
      split at h
      · rename_i hhalf
        have hkinds := kinds_of_foldlM hsome
        have hshape : ShapeOnly kinds := by
          intro k hk
          rcases hkinds k hk with hvalue | hcall | hstop
          · exact Or.inl hvalue
          · exact Or.inr hcall
          · exact absurd hstop (hopen k hk)
        refine ⟨hshape, ?_, bits, hsome, hhalf.1, hhalf.2, (Option.some.inj h).symm⟩
        cases kinds with
        | nil =>
          cases hsome
          exact absurd rfl hhalf.1
        | cons k rest =>
          rcases hshape k List.mem_cons_self with rfl | rfl
          · rfl
          · exact absurd rfl hhead
      · contradiction

/-- Equal selectors come from equal shape bits: the dropped bit is clear, unless it is the only
one. -/
theorem Selects.id_eq_iff {kinds others : List Kind} {m n : Nat} (h : Selects kinds m)
    (hothers : Selects others n) : m = n ↔ recentKinds kinds = recentKinds others := by
  obtain ⟨bits, hbits, hnonzero, hlast, rfl⟩ := h.half
  obtain ⟨more, hmore, hmnonzero, hmlast, rfl⟩ := hothers.half
  have hhalf : bits / 2 = more / 2 ↔ bits = more := by omega
  rw [hhalf, ← Nat.digits_inj_iff, h.shape.digits_shapeBits? hbits,
    hothers.shape.digits_shapeBits? hmore, List.map_reverse, List.map_reverse, List.reverse_inj]
  constructor
  · exact h.shape.recentKinds.eq_of_bits hothers.shape.recentKinds
  · exact fun heq => congrArg (List.map Kind.bit) heq

/-- At most 32 kinds, a value first, are told apart as a whole. -/
theorem recentKinds_eq_self {kinds : List Kind} (hfirst : kinds.head? = some .value)
    (hlength : kinds.length ≤ 32) : recentKinds kinds = kinds := by
  rw [recentKinds, List.rtake, Nat.sub_eq_zero_of_le hlength, List.drop_zero]
  obtain ⟨rest, rfl⟩ := List.head?_eq_some_iff.mp hfirst
  exact List.dropWhile_cons_of_neg (by decide)

/-- A shape of at most 32 instructions is told apart as a whole. -/
theorem Selects.recentKinds_eq {kinds : List Kind} {id : Nat} (h : Selects kinds id)
    (hlength : kinds.length ≤ 32) : recentKinds kinds = kinds :=
  recentKinds_eq_self h.first hlength

/-- The kinds of the instructions before the end of a program. -/
def Program.shape (p : Program α) : List Kind := p.code.dropLast.map Instruction.kind

variable [Arithmetic α]

/-- The selector of an assembled program is the one of its shape, which has no end. -/
theorem Assembler.assemble_engine {a : Assembler α} {source : String} {p : Program α}
    (hok : (a.assemble source).result = .ok p) :
    p.engine = selector? (p.shape ++ [.stop]) ∧ ∀ k ∈ p.shape, k ≠ .stop := by
  obtain ⟨body, hcode, -, hstorable⟩ := assemble_body hok
  obtain ⟨-, tokens, q, -, -, -, -, rfl⟩ := assemble_pushed hok
  have hshape : q.finalize.program.shape = body.map Instruction.kind := by
    simp [Program.shape, hcode]
  rw [hshape]
  constructor
  · change classify q.finalize.program.code = _
    rw [classify, hcode, List.map_append]
    rfl
  · rw [List.forall_mem_map]
    intro i hi hstop
    exact (hstorable i hi).ne_stop (Operation.kind_eq_stop_iff.mp hstop)

/-- An assembled program with a selector has a shape that selects it. -/
theorem Assembler.assemble_selects {a : Assembler α} {source : String} {p : Program α}
    (hok : (a.assemble source).result = .ok p) (hselector : p.engineId ≠ -1) :
    ∃ id : Nat, p.engineId = id ∧ Selects p.shape id := by
  obtain ⟨hengine, hopen⟩ := assemble_engine hok
  unfold Program.engineId at hselector ⊢
  cases hid : p.engine with
  | none => simp [hid] at hselector
  | some id => exact ⟨id, rfl, selects_of_selector? hopen (hengine ▸ hid)⟩

/-- Without the optimizer, the shape of an expression is the kinds of its tokens. -/
theorem Assembler.assemble_plain_shape {a : Assembler α} {source : String}
    {tokens : List (Token α)} (hplain : a.config.optimizer = false)
    (hblank : (trimChars source.toList).isEmpty = false)
    (hreads : a.Reads (a.tokens source) tokens) (hdepth : recognize? 0 tokens = some 1) :
    ∃ p, (a.assemble source).result = .ok p ∧
      p.shape = tokens.map fun t => t.operation.kind := by
  obtain ⟨q, hpushed, hok⟩ := assemble_accepts hblank hreads hdepth
  refine ⟨_, hok, ?_⟩
  have hoperations := hpushed.plain_operations hplain
  have hlatest : q.substitute.program.latest = q.latest := by
    rw [Program.substitute_latest, hpushed.config_eq]
    exact if_neg (Bool.eq_false_iff.mp hplain)
  have hstorable := hpushed.substitute_booked.stamped.storable
  calc q.finalize.program.shape
      = q.latest.reverse.map Instruction.kind := by
        rw [Program.shape, (Program.finalize_eq hstorable).1, List.dropLast_concat, Program.code,
          hlatest]
    _ = (q.latest.map Instruction.operation).reverse.map Operation.kind := by
        rw [← List.map_reverse, List.map_map]
        rfl
    _ = tokens.map fun t => t.operation.kind := by
        rw [hoperations]
        simp [start]

/-- Two assembled programs that have a selector have the same one exactly if their last 32
instructions before the end are of the same kinds, up to calls in front of the first value. So if
both have at most 32 instructions before the end, the same selector means the same shape. -/
theorem selector_tells_recent_shape {a b : Assembler α} {source other : String} {p q : Program α}
    (hp : (a.assemble source).result = .ok p) (hq : (b.assemble other).result = .ok q)
    (hpselector : p.engineId ≠ -1) (hqselector : q.engineId ≠ -1) :
    (p.engineId = q.engineId ↔ recentKinds p.shape = recentKinds q.shape) ∧
      (p.engineId = q.engineId → p.shape.length ≤ 32 → q.shape.length ≤ 32 →
        p.shape = q.shape) := by
  obtain ⟨m, hm, hpshape⟩ := Assembler.assemble_selects hp hpselector
  obtain ⟨n, hn, hqshape⟩ := Assembler.assemble_selects hq hqselector
  have hrecent : p.engineId = q.engineId ↔ recentKinds p.shape = recentKinds q.shape := by
    rw [hm, hn, Int.natCast_inj, hpshape.id_eq_iff hqshape]
  refine ⟨hrecent, ?_⟩
  intro hsame hplength hqlength
  have heq := hrecent.mp hsame
  rw [hpshape.recentKinds_eq hplength, hqshape.recentKinds_eq hqlength] at heq
  exact heq

/-- A product in a sum and a sum in a product are both fused to one call of three values, as their
selector says. -/
theorem selector_tells_recent_shape_fused :
    ∃ p q, ((pairAssembler {}).assemble "x,y,x,*,+").result = .ok p ∧
      ((pairAssembler {}).assemble "y,x,x,+,*").result = .ok q ∧
      p.engineId = q.engineId ∧ p.engineId = 7 ∧ p.shape.length = 4 ∧ p.shape = q.shape := by
  have hsum : (pairAssembler {}).tokens "x,y,x,*,+" = ["x", "y", "x", "*", "+"] := by cbv
  have hproduct : (pairAssembler {}).tokens "y,x,x,+,*" = ["y", "x", "x", "+", "*"] := by cbv
  have hsumPushed : ((pairAssembler {}).pushAll (pairAssembler {}).start 0
      ["x", "y", "x", "*", "+"]).result = .ok _ := rfl
  have hproductPushed : ((pairAssembler {}).pushAll (pairAssembler {}).start 0
      ["y", "x", "x", "+", "*"]).result = .ok _ := rfl
  have hp := Assembler.assemble_eq (by cbv) hsum hsumPushed (by decide +kernel)
  have hq := Assembler.assemble_eq (by cbv) hproduct hproductPushed (by decide +kernel)
  refine ⟨_, _, hp, hq, by decide +kernel, by decide +kernel, by decide +kernel, ?_⟩
  exact (selector_tells_recent_shape hp hq (by decide +kernel) (by decide +kernel)).2
    (by decide +kernel) (by decide +kernel) (by decide +kernel)

/-- An expression followed by calls of one operand. -/
def callsAfter (start : String) (calls : Nat) : String :=
  start ++ String.join (List.replicate calls ",abs")

/-- With more than 32 instructions, two shapes can have one selector: the first of two values is
shifted out. -/
theorem selector_confuses_long_shapes :
    ∃ p q,
      ((pairAssembler { optimizer := false }).assemble (callsAfter "x,y,+" 30)).result = .ok p ∧
      ((pairAssembler { optimizer := false }).assemble (callsAfter "y" 31)).result = .ok q ∧
      p.engineId = q.engineId ∧ p.engineId ≠ -1 ∧ p.shape ≠ q.shape := by
  have hlong : (pairAssembler { optimizer := false }).tokens (callsAfter "x,y,+" 30) =
      "x" :: "y" :: "+" :: List.replicate 30 "abs" := by decide +kernel
  have hshort : (pairAssembler { optimizer := false }).tokens (callsAfter "y" 31) =
      "y" :: List.replicate 31 "abs" := by decide +kernel
  have hlongReads : (pairAssembler { optimizer := false }).Reads
      ("x" :: "y" :: "+" :: List.replicate 30 "abs") _ :=
    .cons rfl <| .cons rfl <| .cons rfl <| Assembler.reads_replicate rfl 30
  have hshortReads : (pairAssembler { optimizer := false }).Reads
      ("y" :: List.replicate 31 "abs") _ :=
    .cons rfl <| Assembler.reads_replicate rfl 31
  rw [← hlong] at hlongReads
  rw [← hshort] at hshortReads
  obtain ⟨p, hp, hpshape⟩ :=
    Assembler.assemble_plain_shape rfl (by decide +kernel) hlongReads rfl
  obtain ⟨q, hq, hqshape⟩ :=
    Assembler.assemble_plain_shape rfl (by decide +kernel) hshortReads rfl
  refine ⟨p, q, hp, hq, ?_⟩
  rw [Program.engineId, Program.engineId, (Assembler.assemble_engine hp).1,
    (Assembler.assemble_engine hq).1, hpshape, hqshape]
  decide +kernel

end StackCode
