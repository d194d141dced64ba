/-!
# Counters of 64 bits

Stack positions are signed 64-bit counters. A position that the stored instructions can account
for, at most one slot for each, is kept as it is; only a position that was restored from a foreign
stamp can leave the range of the counter, and it then wraps around.
-/

namespace StackCode

/-- The signed 64-bit number with the same low bits. -/
def wrap64 (i : Int) : Int := i.bmod 0x10000000000000000

/-- Whether a number is in the range of the counter. -/
def fits64 (i : Int) : Bool := -0x8000000000000000 ≤ i && i < 0x8000000000000000

/-- The counter value for depth `d` over `held` instructions. The instructions are counted only if
the depth is out of range. -/
@[macro_inline]
def settle (held : Nat) (d : Int) : Int :=
  if fits64 d || (0 ≤ d && d ≤ held) then d else wrap64 d

/-- A depth that the instructions account for is exact. -/
theorem settle_of_le {held : Nat} {d : Int} (h₀ : 0 ≤ d) (h : d ≤ held) : settle held d = d := by
  simp [settle, h₀, h]

/-- A number in the range of the counter is its own reading. -/
theorem wrap64_of_fits {i : Int} (h : fits64 i = true) : wrap64 i = i := by
  simp only [fits64, Bool.and_eq_true, decide_eq_true_eq] at h
  apply Int.bmod_eq_of_le <;> omega

/-- The counter wraps around, as long as fewer instructions are held than it can count. -/
theorem settle_eq_wrap64 {held : Nat} (d : Int) (h : held < 0x8000000000000000) :
    settle held d = wrap64 d := by
  unfold settle
  split
  · rename_i hd
    refine (wrap64_of_fits ?_).symm
    simp only [fits64, Bool.or_eq_true, Bool.and_eq_true, decide_eq_true_eq] at hd ⊢
    omega
  · rfl

end StackCode
