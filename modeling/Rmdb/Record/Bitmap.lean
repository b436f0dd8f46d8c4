import Mathlib.Logic.Function.Basic

/-!
# The slot bitmap

The `Bitmap` utility is declared outside the sources; it is modelled from the spec's words
("test/set/reset/next-set/first-unset over a byte-packed bit array"). A bitmap is the function
from a bit's position to the bit. `nextBit` walks positions upward as the utility's loop does,
for `k` more steps (`scan`), and `count` is the population count of `[0, n)` that the record
file invariant compares with `num_records`.

`nextBit_spec` says what `next_bit` returns, and `count_update`, `count_le` and `count_lt_iff`
what setting, resetting and scanning do to the count.
-/

namespace Rmdb

namespace Bitmap

/-- Modelled from the spec: `Bitmap::is_set(bm, pos)`. -/
def isSet (bm : Nat → Bool) (pos : Nat) : Bool := bm pos

/-- Modelled from the spec: `Bitmap::set(bm, pos)`. -/
def set (bm : Nat → Bool) (pos : Nat) : Nat → Bool := Function.update bm pos true

/-- Modelled from the spec: `Bitmap::reset(bm, pos)`. -/
def reset (bm : Nat → Bool) (pos : Nat) : Nat → Bool := Function.update bm pos false

/-- Modelled from the spec: `Bitmap::init(bm, size)` clears the `size` bytes of the bitmap. -/
def init (bm : Nat → Bool) (size : Int) : Nat → Bool :=
  fun i => if (i : Int) < 8 * size then false else bm i

/-- The first position of `[i, i + k)` holding `bit`. -/
def scan (bit : Bool) (bm : Nat → Bool) (i : Nat) : Nat → Option Nat
  | 0 => none
  | k + 1 => if bm i = bit then some i else scan bit bm (i + 1) k

/-- Modelled from the spec: `Bitmap::next_bit(bit, bm, max_n, curr)`, the first position after
`curr` and below `max_n` holding `bit`, else `max_n`. -/
def nextBit (bit : Bool) (bm : Nat → Bool) (maxN curr : Int) : Int :=
  match scan bit bm (curr + 1).toNat (maxN - (curr + 1)).toNat with
  | some j => j
  | none => maxN

/-- Modelled from the spec: `Bitmap::first_bit(bit, bm, max_n)`, that is
`next_bit(bit, bm, max_n, -1)`. -/
def firstBit (bit : Bool) (bm : Nat → Bool) (maxN : Int) : Int := nextBit bit bm maxN (-1)

/-- The number of set bits in `[0, n)`. -/
def count (bm : Nat → Bool) : Nat → Nat
  | 0 => 0
  | n + 1 => count bm n + if bm n then 1 else 0

/-! ## `next_bit` -/

section
variable {bit : Bool} {bm : Nat → Bool}

theorem scan_some : ∀ {i k j : Nat}, scan bit bm i k = some j →
    i ≤ j ∧ j < i + k ∧ bm j = bit ∧ ∀ m, i ≤ m → m < j → bm m ≠ bit
  | _, 0, _, h => by simp [scan] at h
  | i, k + 1, j, h => by
    unfold scan at h
    split at h
    · cases h; exact ⟨Nat.le_refl _, by omega, ‹_›, fun m h1 h2 => absurd h2 (by omega)⟩
    · obtain ⟨h1, h2, h3, h4⟩ := scan_some h
      refine ⟨by omega, by omega, h3, fun m hm hmj => ?_⟩
      rcases Nat.eq_or_lt_of_le hm with rfl | hm
      · assumption
      · exact h4 m hm hmj

theorem scan_none : ∀ {i k : Nat}, scan bit bm i k = none → ∀ m, i ≤ m → m < i + k → bm m ≠ bit
  | _, 0, _, m, h1, h2 => absurd h2 (by omega)
  | i, k + 1, h, m, h1, h2 => by
    unfold scan at h
    split at h
    · cases h
    · rcases Nat.eq_or_lt_of_le h1 with rfl | hm
      · assumption
      · exact scan_none h m hm (by omega)

/-- `next_bit` from `curr ≥ -1` returns `max_n` when no position of `(curr, max_n)` holds `bit`,
and otherwise the first that does. -/
theorem nextBit_spec {maxN curr : Int} (hc : -1 ≤ curr) :
    (nextBit bit bm maxN curr = maxN ∧ ∀ m : Nat, curr < m → (m : Int) < maxN → bm m ≠ bit) ∨
    (curr < nextBit bit bm maxN curr ∧ nextBit bit bm maxN curr < maxN ∧
      bm (nextBit bit bm maxN curr).toNat = bit ∧
      ∀ m : Nat, curr < m → (m : Int) < nextBit bit bm maxN curr → bm m ≠ bit) := by
  unfold nextBit
  split
  · rename_i j hj
    obtain ⟨h1, h2, h3, h4⟩ := scan_some hj
    refine .inr ⟨by omega, by omega, by simpa using h3, fun m hm hmj => h4 m (by omega) ?_⟩
    exact_mod_cast hmj
  · rename_i hj
    exact .inl ⟨rfl, fun m hm hmn => scan_none hj m (by omega) (by omega)⟩

/-- A bitmap cleared over its `n` bytes has its first clear bit at 0. -/
theorem firstBit_false_init (bm : Nat → Bool) {n : Int} (hn : 0 < n) :
    firstBit false (init bm n) n = 0 := by
  obtain ⟨k, hk⟩ : ∃ k, n.toNat = k + 1 := ⟨n.toNat - 1, by omega⟩
  have h0 : init bm n 0 = false := if_pos (by omega)
  simp [firstBit, nextBit, hk, scan, h0]

end

/-! ## Counting set bits -/

section
variable {bm : Nat → Bool}

theorem count_le : ∀ n, count bm n ≤ n
  | 0 => Nat.le_refl _
  | n + 1 => by have := count_le n; unfold count; split <;> omega

/-- Fewer set bits than positions exactly when some position of `[0, n)` is clear. -/
theorem count_lt_iff : ∀ {n}, count bm n < n ↔ ∃ i < n, bm i = false
  | 0 => by simp [count]
  | n + 1 => by
    have ih := count_lt_iff (n := n)
    have hle : count bm n ≤ n := count_le n
    unfold count
    constructor
    · intro h
      cases hb : bm n
      · exact ⟨n, by omega, hb⟩
      · obtain ⟨i, hi, hbi⟩ := ih.1 (by simp [hb] at h; omega)
        exact ⟨i, by omega, hbi⟩
    · rintro ⟨i, hi, hbi⟩
      rcases Nat.lt_succ_iff_lt_or_eq.1 hi with hi | rfl
      · have := ih.2 ⟨i, hi, hbi⟩; split <;> omega
      · simp [hbi]; omega

/-- A count of `n` over `[0, n)` sets every bit there. -/
theorem count_eq_self {n : Nat} (h : count bm n = n) : ∀ i < n, bm i = true := fun i hi => by
  by_contra hb
  have := count_lt_iff.2 ⟨i, hi, by simpa using hb⟩
  omega

theorem count_congr {bm' : Nat → Bool} : ∀ {n}, (∀ i < n, bm' i = bm i) → count bm' n = count bm n
  | 0, _ => rfl
  | n + 1, h => by
    simp only [count, count_congr (n := n) fun i hi => h i (by omega), h n (by omega)]

/-- Changing one bit of `[0, n)` changes the count by the difference of the bits. -/
theorem count_update {i : Nat} {b : Bool} : ∀ {n}, i < n →
    count (Function.update bm i b) n + (if bm i then 1 else 0) =
      count bm n + (if b then 1 else 0)
  | 0, h => absurd h (by omega)
  | n + 1, h => by
    unfold count
    rcases Nat.lt_succ_iff_lt_or_eq.1 h with h | rfl
    · have := count_update (b := b) h
      rw [Function.update_noteq (by omega)]
      split <;> omega
    · rw [count_congr (n := i) fun j hj => Function.update_noteq (by omega) _ _,
        Function.update_same]
      split <;> split <;> omega

theorem count_update_of_le {i : Nat} {b : Bool} {n : Nat} (h : n ≤ i) :
    count (Function.update bm i b) n = count bm n :=
  count_congr fun j hj => Function.update_noteq (by omega) _ _

theorem count_false : ∀ n, count (fun _ => false) n = 0
  | 0 => rfl
  | n + 1 => by simp [count, count_false n]

/-- A bitmap whose only clear bit of `[0, n)` is `s` has `s` as its first clear bit. -/
theorem firstBit_false_eq {n : Int} {s : Nat} (hs : (s : Int) < n) (hclear : bm s = false)
    (hset : ∀ j : Nat, (j : Int) < n → j ≠ s → bm j = true) : firstBit false bm n = s := by
  rcases @nextBit_spec false bm n (-1) (Int.le_refl _) with ⟨-, hall⟩ | ⟨h0, hlt, hb, -⟩
  · exact absurd hclear (hall s (by omega) hs)
  · show nextBit false bm n (-1) = s
    have : (nextBit false bm n (-1)).toNat = s := by
      by_contra hne
      rw [hset _ (by omega) hne] at hb
      cases hb
    omega

/-- With fewer set bits than positions in `[0, n)`, `first_bit(false, .., n)` finds a clear one. -/
theorem firstBit_false_lt {n : Int} (h : count bm n.toNat < n.toNat) : firstBit false bm n < n := by
  obtain ⟨i, hi, hb⟩ := count_lt_iff.1 h
  rcases @nextBit_spec false bm n (-1) (Int.le_refl _) with ⟨-, hall⟩ | ⟨-, hlt, -⟩
  · exact absurd hb (hall i (by omega) (by omega))
  · exact hlt

end

end Bitmap

end Rmdb
