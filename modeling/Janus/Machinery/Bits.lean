import Mathlib.Algebra.Ring.Nat
import Mathlib.Data.List.Basic
import Mathlib.Tactic.Common

/-!
# Machinery/Bits — groups of bits through a word that is never cleared

A loop regroups a stream of bits: it shifts each group into a word, and takes groups of another
width out of it.  What the word still holds is its low bits, the highest first (`low`); whatever is
above them is stale, and no group taken out reads it (`low_push`, `low_add`, `low_range`).  A stream
is cut into groups of one width in one way (`flatMap_append_inj`).
-/

namespace Bits

variable {w k n : ℕ}

/-- The low bits of a word, the highest first. -/
def low : ℕ → BitVec w → List Bool
  | 0, _ => []
  | n + 1, v => v.getLsbD n :: low n v

@[simp] theorem length_low (n : ℕ) (v : BitVec w) : (low n v).length = n := by
  induction n with
  | zero => rfl
  | succ n ih => rw [low, List.length_cons, ih]

/-- Words alike in their low bits. -/
theorem low_congr {v v' : BitVec w} :
    low n v = low n v' ↔ ∀ i < n, v.getLsbD i = v'.getLsbD i := by
  induction n with
  | zero => simp [low]
  | succ n ih =>
    rw [low, low, List.cons.injEq, ih, Nat.forall_lt_succ_right, and_comm]

/-- **The highest of the low bits are taken out** by a shift. -/
theorem low_add (k n : ℕ) (v : BitVec w) : low (k + n) v = low k (v >>> n) ++ low n v := by
  induction k with
  | zero => rw [Nat.zero_add, low, List.nil_append]
  | succ k ih =>
    rw [Nat.add_right_comm, low, ih, low, BitVec.getLsbD_ushiftRight, Nat.add_comm n,
      List.cons_append]

/-- What is taken out of two words alike in their low bits is alike. -/
theorem low_ushiftRight_congr {v v' : BitVec w} {m : ℕ} (h : low n v = low n v') (hk : m + k ≤ n) :
    low m (v >>> k) = low m (v' >>> k) := by
  refine low_congr.mpr fun i hi => ?_
  rw [BitVec.getLsbD_ushiftRight, BitVec.getLsbD_ushiftRight]
  exact low_congr.mp h (k + i) (by omega)

theorem low_of_le {v v' : BitVec w} {m : ℕ} (h : low n v = low n v') (hm : m ≤ n) :
    low m v = low m v' :=
  low_congr.mpr fun i hi => low_congr.mp h i (by omega)

/-- A mask leaves the low bits. -/
theorem low_mask {v : BitVec w} : low n (v &&& BitVec.ofNat w (2 ^ n - 1)) = low n v := by
  refine low_congr.mpr fun i hi => ?_
  rw [BitVec.getLsbD_and, BitVec.getLsbD_ofNat, Nat.testBit_two_pow_sub_one]
  by_cases hw : i < w
  · simp [hw, hi]
  · simp [BitVec.getLsbD_of_ge v i (by omega)]

/-- A word under a mask is its low bits. -/
theorem mask_congr {v v' : BitVec w} (h : low n v = low n v') :
    v &&& BitVec.ofNat w (2 ^ n - 1) = v' &&& BitVec.ofNat w (2 ^ n - 1) := by
  refine BitVec.eq_of_getLsbD_eq fun i hi => ?_
  simp only [BitVec.getLsbD_and, BitVec.getLsbD_ofNat, Nat.testBit_two_pow_sub_one]
  by_cases hn : i < n
  · rw [low_congr.mp h i hn]
  · simp [hn]

/-- A word below a power has no higher bits. -/
theorem getLsbD_of_lt {x : BitVec w} (hx : x.toNat < 2 ^ n) {i : ℕ} (hi : n ≤ i) :
    x.getLsbD i = false := by
  rw [BitVec.getLsbD]
  exact Nat.testBit_lt_two_pow (Nat.lt_of_lt_of_le hx (Nat.pow_le_pow_right (by decide) hi))

/-- **A group shifted in follows what was held**, as long as both fit. -/
theorem low_push {v x : BitVec w} (hfits : k + n ≤ w) (hx : x.toNat < 2 ^ n) :
    low (k + n) (v <<< n ||| x) = low k v ++ low n x := by
  rw [low_add]
  congr 1
  · refine low_congr.mpr fun i hi => ?_
    rw [BitVec.getLsbD_ushiftRight, BitVec.getLsbD_or, BitVec.getLsbD_shiftLeft,
      getLsbD_of_lt hx (Nat.le_add_right n i)]
    simp
    omega
  · refine low_congr.mpr fun i hi => ?_
    rw [BitVec.getLsbD_or, BitVec.getLsbD_shiftLeft]
    simp [hi]

/-- Zeros shifted in. -/
theorem low_shiftLeft {v : BitVec w} (hfits : k + n ≤ w) :
    low (k + n) (v <<< n) = low k v ++ List.replicate n false := by
  have hzero : low n (0#w) = List.replicate n false := by
    clear hfits
    induction n with
    | zero => rfl
    | succ n ih => rw [low, ih, BitVec.getLsbD_zero, List.replicate_succ]
  have hpush := low_push (v := v) (x := 0#w) hfits (Nat.two_pow_pos n)
  rwa [BitVec.or_zero, hzero] at hpush

/-- **Groups are taken out one after the other**, the highest first. -/
theorem low_range (q r : ℕ) (v : BitVec w) :
    low (n * q + r) v =
      ((List.range q).flatMap fun i => low n (v >>> (n * q + r - n * (i + 1)))) ++ low r v := by
  induction q with
  | zero => simp
  | succ q ih =>
    have hsplit : n * (q + 1) + r = n + (n * q + r) := by
      rw [Nat.mul_succ, Nat.add_comm (n * q), Nat.add_assoc]
    rw [hsplit, low_add, ih, List.range_succ_eq_map, List.flatMap_cons, List.flatMap_map,
      List.append_assoc]
    congr 1
    · congr 2
      omega
    · congr 1
      refine List.flatMap_congr fun i _ => ?_
      congr 2
      rw [Nat.mul_succ n (i + 1)]
      omega

/-! ## A stream cut into groups -/

/-- **A stream is cut in one way**, its last group short. -/
theorem flatMap_append_inj {α β : Type*} {f : α → List β} (hf : Function.Injective f)
    (hlength : ∀ a, (f a).length = n) {xs ys : List α} {r s : List β} (hr : r.length < n)
    (hs : s.length < n) (h : xs.flatMap f ++ r = ys.flatMap f ++ s) : xs = ys ∧ r = s := by
  induction xs generalizing ys with
  | nil =>
    cases ys with
    | nil => exact ⟨rfl, by simpa using h⟩
    | cons y ys =>
      have := congrArg List.length h
      simp only [List.flatMap_nil, List.nil_append, List.flatMap_cons, List.length_append, hlength]
        at this
      omega
  | cons x xs ih =>
    cases ys with
    | nil =>
      have := congrArg List.length h
      simp only [List.flatMap_nil, List.nil_append, List.flatMap_cons, List.length_append, hlength]
        at this
      omega
    | cons y ys =>
      rw [List.flatMap_cons, List.flatMap_cons, List.append_assoc, List.append_assoc] at h
      obtain ⟨hxy, hrest⟩ := List.append_inj h (by rw [hlength, hlength])
      obtain ⟨rfl, hrs⟩ := ih hrest
      exact ⟨by rw [hf hxy], hrs⟩

end Bits
