import Janus.Js.Text

/-!
# Js/Base64 — bytes as text, in the alphabet a name or a cookie may hold

Three bytes are four characters, and the last one or two bytes two or three: no padding is written.
-/

namespace Js

/-- A character of base64url. -/
def base64urlUnit (digit : ℕ) : CodeUnit :=
  Fin.ofNat 65536 <|
    if digit < 26 then 65 + digit
    else if digit < 52 then 71 + digit
    else if digit < 62 then digit - 4
    else if digit = 62 then 45 else 95

/-- `[A-Za-z0-9_-]`. -/
def isBase64urlUnit (u : CodeUnit) : Bool :=
  65 ≤ u.val && u.val ≤ 90 || 97 ≤ u.val && u.val ≤ 122 || 48 ≤ u.val && u.val ≤ 57 ||
  u = 45 || u = 95

/-- What a character stands for: either alphabet is read. -/
def base64Digit (u : CodeUnit) : Option ℕ :=
  if 65 ≤ u.val ∧ u.val ≤ 90 then some (u.val - 65)
  else if 97 ≤ u.val ∧ u.val ≤ 122 then some (u.val - 71)
  else if 48 ≤ u.val ∧ u.val ≤ 57 then some (u.val + 4)
  else if u = 45 ∨ u = 43 then some 62
  else if u = 95 ∨ u = 47 then some 63
  else none

/-- Six bits at a time. -/
def base64Digits : List (Fin 256) → List ℕ
  | a :: b :: c :: rest =>
    a.val / 4 :: (a.val % 4 * 16 + b.val / 16) :: (b.val % 16 * 4 + c.val / 64) :: c.val % 64 ::
      base64Digits rest
  | [a, b] => [a.val / 4, a.val % 4 * 16 + b.val / 16, b.val % 16 * 4]
  | [a] => [a.val / 4, a.val % 4 * 16]
  | [] => []

/-- `Buffer.toString('base64url')`. -/
def toBase64url (bytes : List (Fin 256)) : Str := (base64Digits bytes).map base64urlUnit

/-- Eight bits at a time; what is left of the last digit is dropped. -/
def bytesOfDigits : List ℕ → List (Fin 256)
  | w :: x :: y :: z :: rest =>
    Fin.ofNat 256 (w * 4 + x / 16) :: Fin.ofNat 256 (x % 16 * 16 + y / 4) ::
      Fin.ofNat 256 (y % 4 * 64 + z) :: bytesOfDigits rest
  | [w, x, y] => [Fin.ofNat 256 (w * 4 + x / 16), Fin.ofNat 256 (x % 16 * 16 + y / 4)]
  | [w, x] => [Fin.ofNat 256 (w * 4 + x / 16)]
  | _ => []

/-- `Buffer.from(text, 'base64url')`: a character of neither alphabet is skipped. -/
def fromBase64url (text : Str) : List (Fin 256) := bytesOfDigits (text.filterMap base64Digit)

/-! ## Read back -/

theorem base64Digit_unit {digit : ℕ} (h : digit < 64) :
    base64Digit (base64urlUnit digit) = some digit := by
  revert digit
  decide

theorem isBase64urlUnit_unit {digit : ℕ} (h : digit < 64) :
    isBase64urlUnit (base64urlUnit digit) = true := by
  revert digit
  decide

theorem lt_of_mem_base64Digits {bytes : List (Fin 256)} {digit : ℕ}
    (h : digit ∈ base64Digits bytes) :
    digit < 64 := by
  fun_induction base64Digits bytes with
  | case1 a b c rest ih =>
    simp only [List.mem_cons] at h
    rcases h with rfl | rfl | rfl | rfl | h
    · omega
    · omega
    · omega
    · omega
    · exact ih h
  | case2 a b =>
    simp only [List.mem_cons, List.not_mem_nil, or_false] at h
    omega
  | case3 a =>
    simp only [List.mem_cons, List.not_mem_nil, or_false] at h
    omega
  | case4 => cases h

theorem bytesOfDigits_base64Digits (bytes : List (Fin 256)) :
    bytesOfDigits (base64Digits bytes) = bytes := by
  have hbyte : ∀ (a : Fin 256) {n : ℕ}, n = a.val → Fin.ofNat 256 n = a := fun a n h =>
    Fin.ext ((Nat.mod_eq_of_lt (h ▸ a.isLt)).trans h)
  fun_induction base64Digits bytes with
  | case1 a b c rest ih =>
    rw [bytesOfDigits, ih, hbyte a (by omega), hbyte b (by omega), hbyte c (by omega)]
  | case2 a b => rw [bytesOfDigits, hbyte a (by omega), hbyte b (by omega)]
  | case3 a => rw [bytesOfDigits, hbyte a (by omega)]
  | case4 => rfl

/-- **Bytes written are read back.** -/
theorem fromBase64url_toBase64url (bytes : List (Fin 256)) :
    fromBase64url (toBase64url bytes) = bytes := by
  have hdigits : (toBase64url bytes).filterMap base64Digit = base64Digits bytes := by
    rw [toBase64url, List.filterMap_map]
    refine (List.filterMap_congr fun digit hdigit => ?_).trans List.filterMap_some
    exact base64Digit_unit (lt_of_mem_base64Digits hdigit)
  rw [fromBase64url, hdigits, bytesOfDigits_base64Digits]

theorem isBase64urlUnit_of_mem {bytes : List (Fin 256)} {u : CodeUnit} (h : u ∈ toBase64url bytes) :
    isBase64urlUnit u = true := by
  obtain ⟨digit, hdigit, rfl⟩ := List.mem_map.mp h
  exact isBase64urlUnit_unit (lt_of_mem_base64Digits hdigit)

theorem length_toBase64url (bytes : List (Fin 256)) :
    (toBase64url bytes).length = (4 * bytes.length + 2) / 3 := by
  rw [toBase64url, List.length_map]
  fun_induction base64Digits bytes with
  | case1 a b c rest ih =>
    simp only [List.length_cons, ih]
    omega
  | case2 a b => simp
  | case3 a => simp
  | case4 => rfl

end Js
