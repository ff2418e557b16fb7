import Mathlib.Data.List.Range

/-!
# Machinery/Slices — a list read a few elements at a time

The slices of a loop that starts again `size` further on, until it is past the end: together they
are the list, and none is empty or longer than `size`.
-/

namespace Slices

variable {α : Type*}

/-- The slice of each start below the length, `size` apart. -/
def slices (size : ℕ) (l : List α) : List (List α) :=
  (List.range ((l.length + size - 1) / size)).map fun i => (l.drop (i * size)).take size

variable {size : ℕ} {l s : List α}

/-- The first slices together are a prefix. -/
theorem flatten_take (k : ℕ) :
    ((List.range k).map fun i => (l.drop (i * size)).take size).flatten = l.take (k * size) := by
  induction k with
  | zero => simp
  | succ k ih =>
    rw [List.range_succ, List.map_append, List.flatten_append, ih, Nat.succ_mul, List.take_add]
    simp

/-- **The slices together are the list.** -/
theorem flatten_slices (h : 0 < size) (l : List α) : (slices size l).flatten = l := by
  rw [slices, flatten_take]
  refine List.take_of_length_le (Nat.le_of_not_lt fun hlt => ?_)
  have hmore : (l.length + size - 1) / size + 1 ≤ (l.length + size - 1) / size := by
    rw [Nat.le_div_iff_mul_le h, Nat.succ_mul]
    omega
  omega

theorem length_le_of_mem (h : s ∈ slices size l) : s.length ≤ size := by
  obtain ⟨i, -, rfl⟩ := List.mem_map.mp h
  exact List.length_take_le ..

/-- No slice starts past the end. -/
theorem ne_nil_of_mem (hsize : 0 < size) (h : s ∈ slices size l) : s ≠ [] := by
  obtain ⟨i, hi, rfl⟩ := List.mem_map.mp h
  have hstart := (Nat.le_div_iff_mul_le hsize).mp (List.mem_range.mp hi)
  rw [Nat.succ_mul] at hstart
  refine List.ne_nil_of_length_pos ?_
  rw [List.length_take, List.length_drop]
  omega

theorem sublist_of_mem (h : s ∈ slices size l) : s.Sublist l := by
  obtain ⟨i, -, rfl⟩ := List.mem_map.mp h
  exact (List.take_sublist ..).trans (List.drop_sublist ..)

end Slices
