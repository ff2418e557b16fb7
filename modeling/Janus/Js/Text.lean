import Mathlib.Algebra.Ring.Int.Defs
import Mathlib.Algebra.Ring.Nat
import Mathlib.Data.List.Lex
import Mathlib.Order.Fin.Basic
import Mathlib.Data.List.Basic

/-!
# Js/Text — strings as the language has them

A string is a list of UTF-16 code units, compared unit by unit, and so ordered: what `<` and `sort`
read.  `isStorable` is what every store can keep.
-/

namespace Js

/-- One UTF-16 code unit. -/
abbrev CodeUnit := Fin 65536

instance CodeUnit.neZero : NeZero 65536 := ⟨by decide⟩

instance Byte.neZero : NeZero 256 := ⟨by decide⟩

/-- A string: any code units, lone surrogates included. -/
abbrev Str := List CodeUnit

instance Str.lawfulBEq : LawfulBEq Str := inferInstance

/-- The code units of a character: a surrogate pair past the basic plane. -/
def utf16 (c : Char) : List CodeUnit :=
  if c.toNat < 0x10000 then [Fin.ofNat 65536 c.toNat]
  else
    [Fin.ofNat 65536 (0xD800 + (c.toNat - 0x10000) / 0x400),
      Fin.ofNat 65536 (0xDC00 + (c.toNat - 0x10000) % 0x400)]

/-- A literal. -/
def js (s : String) : Str := s.toList.flatMap utf16

/-- `String(n)`, of a natural number. -/
def decimal (n : ℕ) : Str := (Nat.toDigits 10 n).map fun c => Fin.ofNat 65536 c.toNat

/-- A leading surrogate. -/
def isHigh (u : CodeUnit) : Bool := 0xD800 ≤ u.val && u.val ≤ 0xDBFF

/-- A trailing surrogate. -/
def isLow (u : CodeUnit) : Bool := 0xDC00 ≤ u.val && u.val ≤ 0xDFFF

/-- Whether every surrogate is one half of a pair. -/
def isWellFormed : Str → Bool
  | [] => true
  | [u] => !isHigh u && !isLow u
  | u :: v :: rest =>
    if isHigh u then isLow v && isWellFormed rest else !isLow u && isWellFormed (v :: rest)

/-- Whether every store can keep this string. -/
def isStorable (value : Str) : Bool := !value.contains (0 : CodeUnit) && isWellFormed value

/-! ## Numbers as text -/

/-- A number's digits are read back. -/
theorem map_decimal (n : ℕ) :
    ((decimal n).map fun u => Char.ofNat u.val) = Nat.toDigits 10 n := by
  rw [decimal, List.map_map]
  refine (List.map_congr_left fun c hc => ?_).trans (List.map_id _)
  have hdigit := Nat.isDigit_of_mem_toDigits (b := 10) (by decide) (by decide) hc
  have hsmall : c.toNat < 65536 := by
    simp only [Char.isDigit, Bool.and_eq_true, decide_eq_true_eq] at hdigit
    exact Nat.lt_of_le_of_lt (UInt32.le_iff_toNat_le.mp hdigit.2) (by decide)
  simp [Fin.ofNat, Nat.mod_eq_of_lt hsmall]

theorem decimal_injective : Function.Injective decimal := by
  intro m n h
  have hdigits := (map_decimal m).symm.trans ((congrArg (List.map _) h).trans (map_decimal n))
  have hread := congrArg (Nat.ofDigitChars 10 · 0) hdigits
  simpa [Nat.ofDigitChars_ten_toDigits] using hread

theorem mem_decimal {n : ℕ} {u : CodeUnit} (h : u ∈ decimal n) : 48 ≤ u.val ∧ u.val ≤ 57 := by
  obtain ⟨c, hc, rfl⟩ := List.mem_map.mp h
  have hdigit := Nat.isDigit_of_mem_toDigits (b := 10) (by decide) (by decide) hc
  simp only [Char.isDigit, Bool.and_eq_true, decide_eq_true_eq, ge_iff_le,
    UInt32.le_iff_toNat_le] at hdigit
  have hval : (Fin.ofNat 65536 c.toNat).val = c.toNat :=
    Nat.mod_eq_of_lt (Nat.lt_of_le_of_lt hdigit.2 (by decide))
  rwa [hval]

theorem decimal_ne_nil (n : ℕ) : decimal n ≠ [] := fun h =>
  absurd (congrArg List.length h) (by simp [decimal])

/-- `Number(digits)`. -/
def toNumber (digits : Str) : ℕ := digits.foldl (fun n u => 10 * n + (u.val - 48)) 0

theorem toNumber_decimal (n : ℕ) : toNumber (decimal n) = n := by
  calc toNumber (decimal n)
      = Nat.ofDigitChars 10 ((decimal n).map fun u => Char.ofNat u.val) 0 := by
        rw [toNumber, Nat.ofDigitChars_eq_foldl, List.foldl_map]
        refine List.foldl_ext _ _ _ fun m u hu => ?_
        have hdigit := mem_decimal hu
        have hvalid : u.val.isValidChar := Or.inl (by omega)
        have hval : (Char.ofNat u.val).toNat = u.val := by
          rw [Char.ofNat, dif_pos hvalid]
          rfl
        rw [hval]
        rfl
    _ = n := by rw [map_decimal, Nat.ofDigitChars_ten_toDigits]

/-- Only zero begins with a zero. -/
theorem head_decimal {n : ℕ} (hn : n ≠ 0) {rest : Str} : decimal n ≠ (48 : CodeUnit) :: rest := by
  induction n using Nat.strongRecOn generalizing rest with
  | ind n ih =>
    intro h
    rcases Nat.lt_or_ge n 10 with hlt | hge
    · rw [decimal, Nat.toDigits_of_lt_base hlt] at h
      have hdigit : ∀ d < 10, d ≠ 0 → Fin.ofNat 65536 (Nat.digitChar d).toNat ≠ 48 := by decide
      exact hdigit n hlt hn (List.head_eq_of_cons_eq h)
    · rw [decimal, Nat.toDigits_of_base_le (by decide) hge, List.map_append, ← decimal] at h
      cases hrest : decimal (n / 10) with
      | nil => exact decimal_ne_nil _ hrest
      | cons u more =>
        rw [hrest, List.cons_append] at h
        obtain rfl := List.head_eq_of_cons_eq h
        exact ih (n / 10) (by omega) (by omega) hrest

/-! ## Splitting at a separator -/

/-- **A prefix free of the separator is read back**, and what follows it with it. -/
theorem append_cons_inj {sep : CodeUnit} {a b rest rest' : Str} (ha : sep ∉ a) (hb : sep ∉ b)
    (h : a ++ sep :: rest = b ++ sep :: rest') : a = b ∧ rest = rest' := by
  induction a generalizing b with
  | nil =>
    cases b with
    | nil => exact ⟨rfl, List.tail_eq_of_cons_eq h⟩
    | cons y b => exact absurd (List.head_eq_of_cons_eq h ▸ List.mem_cons_self) hb
  | cons x a ih =>
    cases b with
    | nil => exact absurd (List.head_eq_of_cons_eq h ▸ List.mem_cons_self) ha
    | cons y b =>
      obtain ⟨rfl, htail⟩ : x = y ∧ a ++ sep :: rest = b ++ sep :: rest' := by simpa using h
      obtain ⟨rfl, rfl⟩ := ih (fun hm => ha (List.mem_cons_of_mem _ hm))
        (fun hm => hb (List.mem_cons_of_mem _ hm)) htail
      exact ⟨rfl, rfl⟩

/-- **A suffix free of the separator is read back**, and what precedes it with it. -/
theorem append_cons_inj' {sep : CodeUnit} {a b rest rest' : Str} (ha : sep ∉ rest)
    (hb : sep ∉ rest') (h : a ++ sep :: rest = b ++ sep :: rest') : a = b ∧ rest = rest' := by
  have h := congrArg List.reverse h
  simp only [List.reverse_append, List.reverse_cons, List.append_assoc, List.singleton_append] at h
  obtain ⟨hr, ha⟩ := append_cons_inj (by simpa using ha) (by simpa using hb) h
  exact ⟨List.reverse_injective ha, List.reverse_injective hr⟩

end Js
