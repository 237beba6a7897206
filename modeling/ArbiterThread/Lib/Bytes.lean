import Mathlib.Tactic.Common
import Mathlib.Tactic.Ring

/-!
# Byte-Addressed Memory

A memory of bytes, read and written a little-endian 32-bit word at a time.

Words overlap at the byte level, so a store can change a word whose address
is not the one stored to. `load32_store32_of_disjoint` is the frame rule, and
its side condition compares ranges rather than addresses. Everything above
this file reasons with that rule and with `load32_store32_self`, and never
looks at a byte again.

Bulk writes (`fill`, `copy`) and single-byte writes (`store8`) come with the
same two facts: what they write, and that a word outside the range they touch
reads as before.

## Main definitions

* `Mem`: A memory of bytes.
* `load32`, `store32`: Little-endian word access.
* `store8`: A single-byte write.
* `fill`: Setting a range to one byte.
* `copy`: Copying a range.
* `Agree`: Two memories agree on a range of bytes.

## Theorems

* `load32_lt`: A loaded word is a 32-bit number.
* `load32_congr`: A word depends only on its four bytes.
* `load32_store32_self`: A stored word is read back.
* `load32_store32_of_disjoint`: A word elsewhere is unchanged.
* `store32_comm`: Stores to disjoint words commute.
* `store32_load32`: Storing the word that is there changes nothing.
* `load32_store8_high`: A byte store into a word.
* `load32_store8_of_disjoint`, `load32_copy_of_disjoint`: Words outside the range are unchanged.
* `fill_store32`, `copy_store32`: Filling and copying a word at a time.
-/

/-- A memory of bytes. -/
def Mem := Nat → UInt8

namespace Mem

/-- The little-endian 32-bit word at `a`. -/
def load32 (m : Mem) (a : Nat) : Nat :=
  (m a).toNat + 256 * (m (a + 1)).toNat + 65536 * (m (a + 2)).toNat
    + 16777216 * (m (a + 3)).toNat

/-- Store the low 32 bits of `v` at `a`, little end first. -/
def store32 (m : Mem) (a v : Nat) : Mem := fun b =>
  if a ≤ b ∧ b < a + 4 then UInt8.ofNat (v / 256 ^ (b - a)) else m b

/-- Store one byte. -/
def store8 (m : Mem) (a : Nat) (v : UInt8) : Mem := fun b =>
  if b = a then v else m b

/-- Set the `n` bytes from `a` on to `v`, as `memset` does. -/
def fill (m : Mem) (a n : Nat) (v : UInt8) : Mem := fun b =>
  if a ≤ b ∧ b < a + n then v else m b

/-- Copy the `n` bytes from `src` on to `dst`, as `memcpy` does. -/
def copy (m : Mem) (dst src n : Nat) : Mem := fun b =>
  if dst ≤ b ∧ b < dst + n then m (src + (b - dst)) else m b

/-- The two memories hold the same bytes from `a` up to `b`. -/
def Agree (m m' : Mem) (a b : Nat) : Prop :=
  ∀ x, a ≤ x → x < b → m' x = m x

theorem load32_lt (m : Mem) (a : Nat) : m.load32 a < 4294967296 := by
  have h0 := (m a).toNat_lt
  have h1 := (m (a + 1)).toNat_lt
  have h2 := (m (a + 2)).toNat_lt
  have h3 := (m (a + 3)).toNat_lt
  simp only [load32]
  omega

/-- A word depends only on its four bytes. -/
theorem load32_congr {m m' : Mem} {a : Nat} (h : Agree m m' a (a + 4)) :
    m'.load32 a = m.load32 a := by
  simp only [load32]
  rw [h a (by omega) (by omega), h (a + 1) (by omega) (by omega),
    h (a + 2) (by omega) (by omega), h (a + 3) (by omega) (by omega)]

theorem load32_store32_self (m : Mem) (a v : Nat) (hv : v < 4294967296) :
    (m.store32 a v).load32 a = v := by
  have hb : ∀ i, i < 4 → (m.store32 a v) (a + i) = UInt8.ofNat (v / 256 ^ i) := by
    intro i hi
    simp only [store32]
    rw [if_pos (by omega), Nat.add_sub_cancel_left]
  have h0 := hb 0 (by omega)
  rw [Nat.add_zero] at h0
  simp only [load32]
  rw [h0, hb 1 (by omega), hb 2 (by omega), hb 3 (by omega)]
  simp only [UInt8.toNat_ofNat', Nat.reducePow, pow_zero, pow_one, Nat.div_one]
  omega

/-- The frame rule: a word whose bytes a store does not touch is unchanged. -/
theorem load32_store32_of_disjoint (m : Mem) (a b v : Nat) (h : b + 4 ≤ a ∨ a + 4 ≤ b) :
    (m.store32 a v).load32 b = m.load32 b := by
  refine load32_congr (fun x hlo hhi => ?_)
  simp only [store32]
  rw [if_neg (by omega)]

/-- Stores to disjoint words commute. -/
theorem store32_comm (m : Mem) (a b v w : Nat) (h : b + 4 ≤ a ∨ a + 4 ≤ b) :
    (m.store32 a v).store32 b w = (m.store32 b w).store32 a v := by
  funext x
  simp only [store32]
  by_cases hb : b ≤ x ∧ x < b + 4
  · rw [if_pos hb, if_neg (by omega), if_pos hb]
  · rw [if_neg hb]
    by_cases ha : a ≤ x ∧ x < a + 4
    · rw [if_pos ha, if_pos ha]
    · rw [if_neg ha, if_neg ha, if_neg hb]

/-- Storing the word that is there changes nothing. -/
theorem store32_load32 (m : Mem) (a : Nat) : m.store32 a (m.load32 a) = m := by
  funext x
  have h0 := (m a).toNat_lt
  have h1 := (m (a + 1)).toNat_lt
  have h2 := (m (a + 2)).toNat_lt
  have h3 := (m (a + 3)).toNat_lt
  simp only [store32]
  split
  · rename_i hx
    have hcases : x = a ∨ x = a + 1 ∨ x = a + 2 ∨ x = a + 3 := by omega
    rcases hcases with rfl | rfl | rfl | rfl
    all_goals
      apply UInt8.toNat_inj.mp
      simp only [UInt8.toNat_ofNat', load32, Nat.sub_self, Nat.add_sub_cancel_left, Nat.reducePow,
        pow_zero, pow_one, Nat.div_one]
      omega
  · rfl

theorem load32_store8_of_disjoint (m : Mem) (a b : Nat) (v : UInt8) (h : a < b ∨ b + 4 ≤ a) :
    (m.store8 a v).load32 b = m.load32 b := by
  refine load32_congr (fun x hlo hhi => ?_)
  simp only [store8]
  rw [if_neg (by omega)]

/-- Storing the last byte of a word replaces its high part. -/
theorem load32_store8_high (m : Mem) (a : Nat) (v : UInt8) :
    (m.store8 (a + 3) v).load32 a = m.load32 a % 16777216 + 16777216 * v.toNat := by
  have h0 := (m a).toNat_lt
  have h1 := (m (a + 1)).toNat_lt
  have h2 := (m (a + 2)).toNat_lt
  simp only [load32, store8]
  rw [if_neg (by omega), if_neg (by omega), if_neg (by omega), if_true]
  omega

theorem load32_copy_of_disjoint (m : Mem) (dst src n b : Nat)
    (h : b + 4 ≤ dst ∨ dst + n ≤ b) : (m.copy dst src n).load32 b = m.load32 b := by
  refine load32_congr (fun x hlo hhi => ?_)
  simp only [copy]
  rw [if_neg (by omega)]

/-- The bytes of a word. -/
theorem ofNat_load32 (m : Mem) (a : Nat) {k : Nat} (hk : k < 4) :
    UInt8.ofNat (m.load32 a / 256 ^ k) = m (a + k) := by
  have hbyte := congrFun (m.store32_load32 a) (a + k)
  simp only [store32] at hbyte
  rwa [if_pos (by omega), Nat.add_sub_cancel_left] at hbyte

/-- Clearing one word more. -/
theorem fill_store32 (m : Mem) (d i : Nat) :
    (m.fill d (4 * i) 0).store32 (d + 4 * i) 0 = m.fill d (4 * (i + 1)) 0 := by
  funext x
  simp only [store32, fill]
  by_cases hword : d + 4 * i ≤ x ∧ x < d + 4 * i + 4
  · rw [if_pos hword, if_pos (by omega), Nat.zero_div]
    rfl
  · rw [if_neg hword]
    by_cases hx : d ≤ x ∧ x < d + 4 * i
    · rw [if_pos hx, if_pos (by omega)]
    · rw [if_neg hx, if_neg (by omega)]

/-- Copying one word more. -/
theorem copy_store32 (m : Mem) (d src i : Nat) :
    (m.copy d src (4 * i)).store32 (d + 4 * i) (m.load32 (src + 4 * i)) =
      m.copy d src (4 * (i + 1)) := by
  funext x
  simp only [store32, copy]
  by_cases hword : d + 4 * i ≤ x ∧ x < d + 4 * i + 4
  · rw [if_pos hword, if_pos (by omega), ofNat_load32 m _ (by omega)]
    congr 1
    omega
  · rw [if_neg hword]
    by_cases hx : d ≤ x ∧ x < d + 4 * i
    · rw [if_pos hx, if_pos (by omega)]
    · rw [if_neg hx, if_neg (by omega)]

end Mem
