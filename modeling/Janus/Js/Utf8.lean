import Janus.Js.Text

/-!
# Js/Utf8 — a string as its bytes

Bytes hold characters, not code units: a surrogate with no other half is written as `U+FFFD`, so two
strings may have the same bytes, but no two well-formed ones do (`utf8_injective`).
-/

namespace Js

/-- The character of one code unit: `U+FFFD` for half of a pair. -/
def unitChar (u : CodeUnit) : Char := if isHigh u || isLow u then '\uFFFD' else Char.ofNat u.val

/-- The character of a surrogate pair. -/
def pairChar (u v : CodeUnit) : Char :=
  Char.ofNat (0x10000 + (u.val - 0xD800) * 0x400 + (v.val - 0xDC00))

/-- The characters a string is encoded as. -/
def toChars : Str → List Char
  | [] => []
  | [u] => [unitChar u]
  | u :: v :: rest =>
    if isHigh u ∧ isLow v then pairChar u v :: toChars rest else unitChar u :: toChars (v :: rest)

/-- `Buffer.from(text)`. -/
def utf8 (text : Str) : List UInt8 := (String.ofList (toChars text)).toByteArray.data.toList

/-! ## Read back -/

theorem toNat_ofNat {n : ℕ} (h : n.isValidChar) : (Char.ofNat n).toNat = n := by
  rw [Char.ofNat, dif_pos h]
  rfl

theorem utf16_unitChar {u : CodeUnit} (hhigh : isHigh u = false) (hlow : isLow u = false) :
    utf16 (unitChar u) = [u] := by
  have hvalid : u.val.isValidChar := by
    have hlt := u.isLt
    simp only [isHigh, isLow, Bool.and_eq_false_iff, decide_eq_false_iff_not] at hhigh hlow
    simp only [Nat.isValidChar]
    omega
  rw [unitChar, hhigh, hlow, Bool.or_self, if_neg Bool.false_ne_true, utf16, toNat_ofNat hvalid,
    if_pos u.isLt]
  exact congrArg (fun v => [v]) (Fin.ext (Nat.mod_eq_of_lt u.isLt))

theorem utf16_pairChar {u v : CodeUnit} (hu : isHigh u) (hv : isLow v) :
    utf16 (pairChar u v) = [u, v] := by
  simp only [isHigh, isLow, Bool.and_eq_true, decide_eq_true_eq] at hu hv
  have hvalid : (0x10000 + (u.val - 0xD800) * 0x400 + (v.val - 0xDC00)).isValidChar := by
    simp only [Nat.isValidChar]
    omega
  rw [pairChar, utf16, toNat_ofNat hvalid, if_neg (by omega)]
  have hfirst : Fin.ofNat 65536 (0xD800 +
      (0x10000 + (u.val - 0xD800) * 0x400 + (v.val - 0xDC00) - 0x10000) / 0x400) = u := by
    refine Fin.ext ((Nat.mod_eq_of_lt ?_).trans ?_) <;> omega
  have hsecond : Fin.ofNat 65536 (0xDC00 +
      (0x10000 + (u.val - 0xD800) * 0x400 + (v.val - 0xDC00) - 0x10000) % 0x400) = v := by
    refine Fin.ext ((Nat.mod_eq_of_lt ?_).trans ?_) <;> omega
  rw [hfirst, hsecond]

/-- A well-formed string is read back from its characters. -/
theorem flatMap_utf16_toChars {s : Str} (h : isWellFormed s) : (toChars s).flatMap utf16 = s := by
  induction s using isWellFormed.induct with
  | case1 => rfl
  | case2 u =>
    simp only [isWellFormed, Bool.and_eq_true, Bool.not_eq_true'] at h
    rw [toChars, List.flatMap_singleton, utf16_unitChar h.1 h.2]
  | case3 u v rest hhigh ih =>
    simp only [isWellFormed, if_pos hhigh, Bool.and_eq_true] at h
    rw [toChars, if_pos ⟨hhigh, h.1⟩, List.flatMap_cons, utf16_pairChar hhigh h.1, ih h.2]
    rfl
  | case4 u v rest hhigh ih =>
    simp only [isWellFormed, if_neg hhigh, Bool.and_eq_true, Bool.not_eq_true'] at h
    rw [toChars, if_neg fun hpair => hhigh hpair.1, List.flatMap_cons,
      utf16_unitChar (Bool.eq_false_of_not_eq_true hhigh) h.1, ih h.2]
    rfl

/-- **No two well-formed strings have the same bytes.** -/
theorem utf8_injective {s t : Str} (hs : isWellFormed s) (ht : isWellFormed t)
    (h : utf8 s = utf8 t) :
    s = t := by
  have hbytes := ByteArray.ext (Array.toList_inj.mp h)
  have hchars := String.ofList_injective (String.toByteArray_inj.mp hbytes)
  rw [← flatMap_utf16_toChars hs, hchars, flatMap_utf16_toChars ht]

/-! ## Well-formed strings -/

theorem isWellFormed_append {a b : Str} (ha : isWellFormed a) (hb : isWellFormed b) :
    isWellFormed (a ++ b) := by
  induction a using isWellFormed.induct with
  | case1 => exact hb
  | case2 v =>
    simp only [isWellFormed, Bool.and_eq_true, Bool.not_eq_true'] at ha
    cases b with
    | nil => simp [isWellFormed, ha.1, ha.2]
    | cons w b => simp [isWellFormed, ha.1, ha.2, hb]
  | case3 v w rest hv ih =>
    simp only [isWellFormed, if_pos hv, Bool.and_eq_true] at ha
    simp [isWellFormed, hv, ha.1, ih ha.2]
  | case4 v w rest hv ih =>
    simp only [isWellFormed, if_neg hv, Bool.and_eq_true, Bool.not_eq_true'] at ha
    have hrest := ih ha.2
    rw [List.cons_append] at hrest
    simp [isWellFormed, hv, ha.1, hrest]

/-- A string with no surrogate. -/
theorem isWellFormed_of_forall {s : Str} (h : ∀ u ∈ s, u.val < 0xD800) : isWellFormed s := by
  induction s with
  | nil => rfl
  | cons u s ih =>
    have hu := h u List.mem_cons_self
    have hunit : isWellFormed [u] := by
      simp only [isWellFormed, isHigh, isLow, Bool.and_eq_true, Bool.not_eq_true',
        Bool.and_eq_false_iff, decide_eq_false_iff_not]
      omega
    exact isWellFormed_append hunit (ih fun v hv => h v (List.mem_cons_of_mem _ hv))

end Js
