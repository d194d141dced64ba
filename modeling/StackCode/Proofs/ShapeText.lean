import Mathlib.Data.List.GetD
import Mathlib.Data.Nat.Digits.Lemmas
import StackCode.Proofs.Selector

/-!
# Reading a shape back from its selector

A selector drops the lowest of the shape bits, and the text of a shape puts it back as a call. An
expression leaves one value, and every stored instruction leaves at least one slot, so only the first
instruction of a program can be a value at depth one: the last of several is a call or an assignment,
whatever folding and fusion did. The dropped bit is therefore the right one, and up to 32
instructions nothing is shifted out.

So a program of at most 32 instructions has a selector exactly if it starts with a value and assigns
nothing, and the text of its selector spells its shape.
-/

namespace StackCode

universe u

variable {α : Type u}

/-- The letter of a kind in the text of a shape. -/
def Kind.letter : Kind → Char
  | .value => 'V'
  | _ => 'C'

/-- A bit is set exactly where the digit is one. -/
theorem testBit_eq_digit (bits i : Nat) :
    bits.testBit i = decide ((Nat.digits 2 bits).getD i 0 = 1) := by
  rw [Nat.testBit_eq_decide_div_mod_eq, Nat.getD_digits bits i (by decide)]

/-- The bits of a shape, from the highest on, spell its letters. -/
theorem letters_of_digits {kinds : List Kind} {bits : Nat}
    (h : Nat.digits 2 bits = kinds.reverse.map Kind.bit) :
    ((List.range kinds.length).reverse.map fun i => if bits.testBit i then 'V' else 'C') =
      kinds.map Kind.letter := by
  rw [← List.reverse_inj, ← List.map_reverse, List.reverse_reverse, ← List.map_reverse]
  apply List.ext_getElem
  · simp
  · intro i hi _
    have hlength : i < kinds.reverse.length := by simpa using hi
    rw [List.getElem_map, List.getElem_map, List.getElem_range, testBit_eq_digit, h,
      List.getD_eq_getElem _ _ (by simpa using hlength), List.getElem_map]
    cases kinds.reverse[i] <;> rfl

namespace Selects

variable {kinds : List Kind} {id : Nat}

/-- The shape bits of at most 32 instructions are their digits. -/
theorem digits_eq (h : Selects kinds id) (hlength : kinds.length ≤ 32) :
    ∃ bits, Nat.digits 2 bits = kinds.reverse.map Kind.bit ∧ bits < 2 ^ 32 ∧
      (bits % 2 = 0 ∨ bits = 1) ∧ id = bits / 2 := by
  obtain ⟨bits, hbits, -, hlast, hhalf⟩ := h.half
  have hdigits := h.shape.digits_shapeBits? hbits
  rw [h.recentKinds_eq hlength] at hdigits
  have hnumber : bits = _ % 2 ^ 32 := Option.some.inj (hbits.symm.trans h.shape.shapeBits?_eq)
  exact ⟨bits, hdigits, hnumber ▸ Nat.mod_lt _ (by decide), hlast, hhalf⟩

/-- A single instruction has the selector zero. -/
theorem id_eq_zero (h : Selects kinds id) (hone : kinds.length = 1) : id = 0 := by
  obtain ⟨bits, hdigits, -, -, rfl⟩ := h.digits_eq (by omega)
  obtain ⟨k, rfl⟩ := List.length_eq_one_iff.mp hone
  cases Option.some.inj h.first
  have hbits := Nat.ofDigits_digits 2 bits
  rw [hdigits] at hbits
  rw [← hbits]
  rfl

/-- The text of a selector of several instructions spells their letters. -/
theorem engineBits_eq (h : Selects kinds id) (hlength : kinds.length ≤ 32)
    (htwo : 2 ≤ kinds.length) : 0 < id ∧
      engineBits id (kinds.length + 1) = String.ofList (kinds.map Kind.letter) := by
  obtain ⟨bits, hdigits, hbound, hlast, rfl⟩ := h.digits_eq hlength
  -- Two digits or more are a number of two at least, so the lowest digit is clear.
  have hdigit : 2 ≤ (Nat.digits 2 bits).length := by simpa [hdigits] using htwo
  have hlarge : 2 ≤ bits := by
    by_contra hsmall
    have hone : bits = 0 ∨ bits = 1 := by omega
    rcases hone with rfl | rfl
    · simp at hdigit
    · simp at hdigit
  have hpositive : 0 < bits / 2 := by omega
  have heven : 2 * (bits / 2) % 0x10000000000000000 = bits := by omega
  have hshown : ¬(((bits / 2 : Nat) : Int) ≤ 0 ∨ (kinds.length + 1 : Int) < 2) := by omega
  refine ⟨hpositive, ?_⟩
  rw [engineBits, if_neg hshown]
  change String.ofList ((List.range kinds.length).reverse.map fun i =>
    if (2 * (bits / 2) % 0x10000000000000000).testBit i then 'V' else 'C') = _
  rw [heven, letters_of_digits hdigits]

end Selects

/-- A value at depth one is the first instruction. -/
theorem Stamped.first_of_value {i : Instruction α} {rest : List (Instruction α)}
    (h : Stamped (i :: rest)) (hone : i.stackPos = 1) (hvalue : i.kind = .value) : rest = [] := by
  cases rest with
  | nil => rfl
  | cons below rest =>
    have hbelow := h.tail.one_le_stackPos
    obtain ⟨operation, depth⟩ := i
    cases operation with
    | value v =>
      obtain ⟨-, hdepth⟩ := Stamped.value_cons_iff.mp h
      change depth = below.stackPos + 1 at hdepth
      change depth = 1 at hone
      omega
    | call c =>
      rw [Instruction.kind, Operation.kind] at hvalue
      split at hvalue <;> contradiction
    | assign a => contradiction
    | stop => contradiction

/-- What a program under construction holds is a value, a call or an assignment. -/
theorem Operation.Storable.kind_cases {o : Operation α} (h : o.Storable) :
    o.kind = .value ∨ o.kind = .call ∨ o.kind = .assign := by
  cases o with
  | value v => exact Or.inl rfl
  | call c => exact Or.inr (Or.inl (by simp [Operation.kind, h.1]))
  | assign a => exact Or.inr (Or.inr rfl)
  | stop => exact h.elim

/-- Values and calls, a value first and none at the end unless it is the first, select. -/
theorem ShapeOnly.exists_selects {kinds : List Kind} (hshape : ShapeOnly kinds)
    (hfirst : kinds.head? = some .value) (hlength : kinds.length ≤ 32)
    (hlast : kinds.getLast? = some .value → kinds.length = 1) : ∃ id, Selects kinds id := by
  obtain ⟨bits, hbits⟩ : ∃ bits, shapeBits? kinds = some bits := ⟨_, hshape.shapeBits?_eq⟩
  have hdigits := hshape.digits_shapeBits? hbits
  rw [recentKinds_eq_self hfirst hlength] at hdigits
  have hnumber : bits = Nat.ofDigits 2 (kinds.reverse.map Kind.bit) := by
    rw [← hdigits, Nat.ofDigits_digits]
  have hsome : kinds ≠ [] := by
    rintro rfl
    contradiction
  refine ⟨_, hshape, hfirst, bits, hbits, ?_, ?_, rfl⟩
  · -- The bits have as many digits as there are kinds.
    rintro rfl
    rw [Nat.digits_zero] at hdigits
    exact hsome (by simpa using hdigits)
  · obtain ⟨before, last, rfl⟩ := (List.eq_nil_or_concat' kinds).resolve_left hsome
    rw [List.reverse_append, List.reverse_singleton, List.singleton_append, List.map_cons,
      Nat.ofDigits_cons] at hnumber
    rcases hshape last (by simp) with rfl | rfl
    · have hbefore : before = [] := by simpa using hlast (by simp)
      subst hbefore
      exact Or.inr hnumber
    · left
      change bits = 0 + 2 * _ at hnumber
      omega

/-- Kinds that select have their selector before the end. -/
theorem Selects.selector?_eq {kinds : List Kind} {id : Nat} (h : Selects kinds id) :
    selector? (kinds ++ [.stop]) = some id := by
  obtain ⟨bits, hbits, hnonzero, hlast, rfl⟩ := h.half
  obtain ⟨rest, rfl⟩ := List.head?_eq_some_iff.mp h.first
  have hclosed : shapeBits? (.value :: rest ++ [.stop]) = some bits := by
    rw [shapeBits?, List.foldlM_append]
    rw [shapeBits?] at hbits
    rw [hbits]
    rfl
  rw [selector?, if_neg (by simp), hclosed]
  exact if_pos ⟨hnonzero, hlast⟩

variable [Arithmetic α]

/-- The shape of an assembled program holds values, calls and assignments only, and if it ends with a
value then that is all. -/
theorem Assembler.assemble_shape {a : Assembler α} {source : String} {p : Program α}
    (hok : (a.assemble source).result = .ok p) :
    p.size = p.shape.length + 1 ∧ p.shape ≠ [] ∧
      (∀ k ∈ p.shape, k = .value ∨ k = .call ∨ k = .assign) ∧
      (p.shape.getLast? = some .value → p.shape.length = 1) := by
  obtain ⟨q, hbooked, hone, rfl⟩ := assemble_booked hok
  obtain ⟨hstamped, hdepth, -, -⟩ := hbooked
  obtain ⟨hcode, -, -⟩ := Program.finalize_eq hstamped.storable
  have hshape : q.finalize.program.shape =
      q.substitute.program.latest.reverse.map Instruction.kind := by
    rw [Program.shape, hcode, List.dropLast_concat, Program.code]
  have hsize : q.finalize.program.size = q.substitute.program.latest.length + 1 := by
    have hlength := congrArg List.length hcode
    simpa [Program.code, Program.size] using hlength
  rw [hone] at hdepth
  rw [hshape, hsize]
  generalize q.substitute.program.latest = latest at hstamped hdepth
  cases latest with
  | nil => simp [topPos] at hdepth
  | cons i rest =>
    refine ⟨by simp, by simp, ?_, ?_⟩
    · rw [List.forall_mem_map]
      exact fun j hj => (hstamped.storable j (List.mem_reverse.mp hj)).kind_cases
    · intro hlast
      have hvalue : i.kind = .value := by simpa using hlast
      simp [hstamped.first_of_value hdepth.symm hvalue]

/-- The selector of an assembled program of at most 32 instructions tells its shape. It is absent
exactly if the program starts with a call or assigns. Otherwise it is zero for a single instruction,
and for several it is positive and its text spells the shape, a `V` for each value and a `C` for each
call. -/
theorem selector_text_spells_shape {a : Assembler α} {source : String} {p : Program α}
    (hok : (a.assemble source).result = .ok p) (hlength : p.shape.length ≤ 32) :
    p.size = p.shape.length + 1 ∧ 1 ≤ p.shape.length ∧
      (p.engineId = -1 ↔ p.shape.head? = some .call ∨ .assign ∈ p.shape) ∧
      (p.engineId ≠ -1 → p.shape.length = 1 → p.engineId = 0) ∧
      (p.engineId ≠ -1 → 2 ≤ p.shape.length →
        0 < p.engineId ∧
          engineBits p.engineId p.size = String.ofList (p.shape.map Kind.letter)) := by
  obtain ⟨hsize, hsome, hkinds, hlast⟩ := Assembler.assemble_shape hok
  refine ⟨hsize, List.length_pos_iff.mpr hsome, ⟨?_, ?_⟩, ?_, ?_⟩
  · -- A shape without calls in front and assignments selects.
    intro habsent
    by_contra hother
    rw [not_or] at hother
    have hshape : ShapeOnly p.shape := by
      intro k hk
      rcases hkinds k hk with hvalue | hcall | rfl
      · exact Or.inl hvalue
      · exact Or.inr hcall
      · exact absurd hk hother.2
    have hfirst : p.shape.head? = some .value := by
      obtain ⟨k, rest, hcons⟩ := List.exists_cons_of_ne_nil hsome
      rw [hcons] at hshape hother ⊢
      rcases hshape k List.mem_cons_self with rfl | rfl
      · rfl
      · exact absurd rfl hother.1
    obtain ⟨id, hselects⟩ := hshape.exists_selects hfirst hlength hlast
    have hengine := (Assembler.assemble_engine hok).1
    rw [hselects.selector?_eq] at hengine
    rw [Program.engineId, hengine] at habsent
    simp at habsent
  · intro hother
    by_contra hselector
    obtain ⟨id, -, hselects⟩ := Assembler.assemble_selects hok hselector
    rcases hother with hcall | hassign
    · rw [hselects.first] at hcall
      contradiction
    · rcases hselects.shape _ hassign with hvalue | hcall <;> contradiction
  · intro hselector hone
    obtain ⟨id, hid, hselects⟩ := Assembler.assemble_selects hok hselector
    rw [hid, hselects.id_eq_zero hone]
    rfl
  · intro hselector htwo
    obtain ⟨id, hid, hselects⟩ := Assembler.assemble_selects hok hselector
    obtain ⟨hpositive, htext⟩ := hselects.engineBits_eq hlength htwo
    rw [hid, hsize]
    exact ⟨Int.natCast_pos.mpr hpositive, htext⟩

/-- A quotient that is fused into a difference leaves a call between the values, and the text of the
selector shows where. -/
theorem selector_text_spells_shape_difference :
    ∃ p, ((pairAssembler {}).assemble "x,abs,y,x,/,-").result = .ok p ∧
      p.shape.length = 5 ∧ p.engineId = 11 ∧ engineBits p.engineId p.size = "VCVVC" := by
  have htokens : (pairAssembler {}).tokens "x,abs,y,x,/,-" =
      ["x", "abs", "y", "x", "/", "-"] := by cbv
  have hpushed : ((pairAssembler {}).pushAll (pairAssembler {}).start 0
      ["x", "abs", "y", "x", "/", "-"]).result = .ok _ := rfl
  have hp := Assembler.assemble_eq (by cbv) htokens hpushed (by decide +kernel)
  obtain ⟨-, -, -, -, htext⟩ := selector_text_spells_shape hp (by decide +kernel)
  refine ⟨_, hp, by decide +kernel, by decide +kernel, ?_⟩
  rw [(htext (by decide +kernel) (by decide +kernel)).2]
  decide +kernel

end StackCode
