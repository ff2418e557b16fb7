import Janus.Auth.Enrolment
import Janus.Machinery.Bits

/-!
# Auth/Base32 — a secret's text and its bytes

    bytes ──eight bits in, five out──▸ digits ──five in, eight out──▸ bytes

Neither loop clears the word it shifts through: what is written is read off its low bits alone
(`writeBase32_congr`, `readBase32_congr`), so the digits are the bits of the bytes, cut into fives,
with fewer than five zeros after them (`flatMap_writeBase32`), and the bytes are read back
(`fromBase32_toBase32`).
-/

namespace Janus.Auth

open Js Bits

/-! ## Digits and bytes -/

/-- A digit is read as it was written. -/
theorem base32Index_unit {index : ℕ} (h : index < 32) :
    base32Index (base32Unit index) = some index := by
  revert index
  decide

/-- The five bits of a digit. -/
def digitBits (digit : ℕ) : List Bool := low 5 (BitVec.ofNat 32 digit)

def byteBits (byte : Byte) : List Bool := low 8 (BitVec.ofNat 32 byte.val)

theorem digitBits_toNat (v : BitVec 32) : digitBits (v &&& 31).toNat = low 5 v := by
  rw [digitBits, BitVec.ofNat_toNat, BitVec.setWidth_eq]
  exact low_mask

/-- A byte taken out of a word has its low bits. -/
theorem byteBits_toNat (v : BitVec 32) : byteBits (Fin.ofNat 256 (v &&& 255).toNat) = low 8 v := by
  have hbyte : (v &&& 255).toNat < 256 := by
    refine Nat.lt_of_le_of_lt ?_ (by decide : 255 < 256)
    rw [BitVec.toNat_and]
    exact Nat.and_le_right
  have hval : (Fin.ofNat 256 (v &&& 255).toNat).val = (v &&& 255).toNat := Nat.mod_eq_of_lt hbyte
  rw [byteBits, hval, BitVec.ofNat_toNat, BitVec.setWidth_eq]
  exact low_mask

theorem byteBits_injective : Function.Injective byteBits := by
  intro a b h
  have hval := congrArg BitVec.toNat (mask_congr h)
  simp only [BitVec.toNat_and, BitVec.toNat_ofNat] at hval
  rw [Nat.mod_eq_of_lt (by decide : 2 ^ 8 - 1 < 2 ^ 32), Nat.and_two_pow_sub_one_eq_mod,
    Nat.and_two_pow_sub_one_eq_mod] at hval
  exact Fin.ext (by omega)

/-! ## What is written -/

section Words

variable {bits : ℕ} {value value' : BitVec 32}

/-- A byte shifted in, where fewer than five bits are held. -/
theorem low_push_byte (hbits : bits < 5) (byte : Byte) :
    low (bits + 8) (value <<< 8 ||| BitVec.ofNat 32 byte.val) =
    low bits value ++ byteBits byte := by
  refine low_push (by omega) ?_
  rw [BitVec.toNat_ofNat]
  omega

/-- The last digit, filled with zeros. -/
theorem low_lastDigit (hbits : bits < 5) (value : BitVec 32) :
    low 5 (value <<< (5 - bits)) = low bits value ++ List.replicate (5 - bits) false := by
  have hfive : bits + (5 - bits) = 5 := by omega
  calc low 5 (value <<< (5 - bits))
      = low (bits + (5 - bits)) (value <<< (5 - bits)) := by rw [hfive]
    _ = low bits value ++ List.replicate (5 - bits) false := low_shiftLeft (by omega)

/-- The digits taken out of a word that holds so many bits. -/
def digitsOut (bits : ℕ) (value : BitVec 32) : List ℕ :=
  (List.range (bits / 5)).map fun i => (value >>> (bits - 5 * (i + 1)) &&& 31).toNat

theorem low_digitsOut (bits : ℕ) (value : BitVec 32) :
    low bits value = (digitsOut bits value).flatMap digitBits ++ low (bits % 5) value := by
  have hbits := Nat.div_add_mod bits 5
  calc low bits value
      = low (5 * (bits / 5) + bits % 5) value := by rw [hbits]
    _ = (digitsOut bits value).flatMap digitBits ++ low (bits % 5) value := by
      rw [low_range, digitsOut, List.flatMap_map, hbits]
      simp only [digitBits_toNat]

/-- **The digits are the bits held, and then those of the bytes**, with fewer than five zeros after
them. -/
theorem flatMap_writeBase32 (bytes : List Byte) (hbits : bits < 5) (value : BitVec 32) :
    ∃ (digits : List ℕ) (pad : ℕ), writeBase32 bytes bits value = digits.map base32Unit ∧
      (∀ d ∈ digits, d < 32) ∧ pad < 5 ∧ digits.flatMap digitBits =
        low bits value ++ bytes.flatMap byteBits ++ List.replicate pad false := by
  have hdigit : ∀ v : BitVec 32, (v &&& 31).toNat < 32 := fun v => by
    rw [BitVec.toNat_and]
    exact Nat.lt_of_le_of_lt Nat.and_le_right (by decide)
  induction bytes generalizing bits value with
  | nil =>
    rw [writeBase32]
    by_cases hpos : 0 < bits
    · refine ⟨[(value <<< (5 - bits) &&& 31).toNat], 5 - bits, if_pos hpos,
        List.forall_mem_singleton.mpr (hdigit _), by omega, ?_⟩
      rw [List.flatMap_cons, List.flatMap_nil, List.flatMap_nil, List.append_nil, List.append_nil,
        digitBits_toNat, low_lastDigit hbits]
    · obtain rfl : bits = 0 := by omega
      exact ⟨[], 0, rfl, by simp, by omega, rfl⟩
  | cons byte bytes ih =>
    obtain ⟨digits, pad, hdigits, hlt, hpad, hflat⟩ := ih (Nat.mod_lt (bits + 8) (by decide))
      (value <<< 8 ||| BitVec.ofNat 32 byte.val)
    refine ⟨digitsOut (bits + 8) (value <<< 8 ||| BitVec.ofNat 32 byte.val) ++ digits, pad,
      ?_, ?_, hpad,
      ?_⟩
    · rw [writeBase32, hdigits, List.map_append, digitsOut, List.map_map]
      rfl
    · intro d hd
      obtain hd | hd := List.mem_append.mp hd
      · obtain ⟨i, -, rfl⟩ := List.mem_map.mp hd
        exact hdigit _
      · exact hlt d hd
    · rw [List.flatMap_append, hflat, ← List.append_assoc, ← List.append_assoc, ← low_digitsOut,
        low_push_byte hbits, List.flatMap_cons, List.append_assoc (low bits value)]

/-! ## What is read -/

/-- A digit shifted in, where fewer than eight bits are held. -/
theorem low_push_digit (hbits : bits < 8) {digit : ℕ} (hdigit : digit < 32) :
    low (bits + 5) (value <<< 5 ||| BitVec.ofNat 32 digit) = low bits value ++ digitBits digit := by
  refine low_push (by omega) ?_
  rw [BitVec.toNat_ofNat]
  omega

/-- **The bytes are the bits held, and then those of the digits**, the last of them short of a byte.
-/
theorem flatMap_readBase32 (digits : List ℕ) (hdigits : ∀ d ∈ digits, d < 32) (hbits : bits < 8)
    (value : BitVec 32) :
    ∃ bytes rest, readBase32 (digits.map base32Unit) bits value = .ok bytes ∧ rest.length < 8 ∧
      low bits value ++ digits.flatMap digitBits = bytes.flatMap byteBits ++ rest := by
  induction digits generalizing bits value with
  | nil => exact ⟨[], low bits value, rfl, by rwa [length_low], by simp⟩
  | cons digit digits ih =>
    have hdigit := hdigits digit List.mem_cons_self
    have hrest := fun d hd => hdigits d (List.mem_cons_of_mem _ hd)
    have hpush : low (bits + 5) (value <<< 5 ||| BitVec.ofNat 32 digit) =
        low bits value ++ digitBits digit := low_push_digit hbits hdigit
    rw [List.map_cons, readBase32, base32Index_unit hdigit, List.flatMap_cons, ← List.append_assoc,
      ← hpush]
    dsimp only
    by_cases hfull : 8 ≤ bits + 5
    · obtain ⟨bytes, rest, hread, hlength, hflat⟩ := ih hrest (by omega : bits + 5 - 8 < 8)
        (value <<< 5 ||| BitVec.ofNat 32 digit)
      rw [if_pos hfull, hread]
      refine ⟨_ :: bytes, rest, rfl, hlength, ?_⟩
      rw [List.flatMap_cons, byteBits_toNat, List.append_assoc, ← hflat, ← List.append_assoc,
        ← low_add, show 8 + (bits + 5 - 8) = bits + 5 by omega]
    · rw [if_neg hfull]
      exact ih hrest (by omega) _

/-! ## Back and forth -/

/-- What stays of a word above the bits it holds is written in no digit. -/
theorem writeBase32_congr (bytes : List Byte) (hbits : bits < 5)
    (h : low bits value = low bits value') :
    writeBase32 bytes bits value = writeBase32 bytes bits value' := by
  induction bytes generalizing bits value value' with
  | nil =>
    have hmask : value <<< (5 - bits) &&& (31 : BitVec 32) = value' <<< (5 - bits) &&& 31 :=
      mask_congr (n := 5) (by rw [low_lastDigit hbits, low_lastDigit hbits, h])
    rw [writeBase32, writeBase32, hmask]
  | cons byte bytes ih =>
    have hpush : low (bits + 8) (value <<< 8 ||| BitVec.ofNat 32 byte.val) =
        low (bits + 8) (value' <<< 8 ||| BitVec.ofNat 32 byte.val) := by
      rw [low_push_byte hbits, low_push_byte hbits, h]
    rw [writeBase32, writeBase32, ih (Nat.mod_lt _ (by decide)) (low_of_le hpush (Nat.mod_le _ _))]
    congr 1
    refine List.map_congr_left fun i hi => ?_
    have hi := List.mem_range.mp hi
    refine congrArg (fun v : BitVec 32 => base32Unit v.toNat) (mask_congr (n := 5) ?_)
    exact low_ushiftRight_congr hpush (by omega)

/-- …and in no byte. -/
theorem readBase32_congr (text : Str) (hbits : bits < 8) (h : low bits value = low bits value') :
    readBase32 text bits value = readBase32 text bits value' := by
  have hindex : ∀ {u index}, base32Index u = some index → index < 32 := by
    intro u index h
    rw [base32Index] at h
    split at h
    · have := Option.some.inj h
      omega
    · split at h
      · have := Option.some.inj h
        omega
      · cases h
  induction text generalizing bits value value' with
  | nil => rfl
  | cons u text ih =>
    rw [readBase32, readBase32]
    split
    case h_1 => rfl
    case h_2 index hu =>
      have hpush : low (bits + 5) (value <<< 5 ||| BitVec.ofNat 32 index) =
          low (bits + 5) (value' <<< 5 ||| BitVec.ofNat 32 index) := by
        rw [low_push_digit hbits (hindex hu), low_push_digit hbits (hindex hu), h]
      dsimp only
      by_cases hfull : 8 ≤ bits + 5
      · have hbyte : (value <<< 5 ||| BitVec.ofNat 32 index) >>> (bits + 5 - 8) &&&
          (255 : BitVec 32) =
            (value' <<< 5 ||| BitVec.ofNat 32 index) >>> (bits + 5 - 8) &&& 255 :=
          mask_congr (n := 8) (low_ushiftRight_congr hpush (by omega))
        rw [if_pos hfull, if_pos hfull, hbyte, ih (by omega) (low_of_le hpush (by omega))]
      · rw [if_neg hfull, if_neg hfull]
        exact ih (by omega) hpush

end Words

/-- **Every list of bytes is read back from its text**, whatever its length. -/
theorem fromBase32_toBase32 (bytes : List Byte) : fromBase32 (toBase32 bytes) = .ok bytes := by
  obtain ⟨digits, pad, hwrite, hdigits, hpad, hdigitBits⟩ :=
    flatMap_writeBase32 bytes (by decide : 0 < 5) 0
  obtain ⟨read, rest, hread, hrest, hbits⟩ :=
    flatMap_readBase32 digits hdigits (by decide : 0 < 8) 0
  have hsame : read.flatMap byteBits ++ rest = bytes.flatMap byteBits ++ List.replicate pad false :=
    hbits.symm.trans hdigitBits
  obtain ⟨rfl, -⟩ := flatMap_append_inj byteBits_injective (fun _ => length_low _ _) hrest
    (by rw [List.length_replicate]; omega) hsame
  rw [toBase32, fromBase32, hwrite, hread]

/-- **A word that is never cleared loses no byte and adds none**: what is written is read back, and
neither loop reads a bit above those it holds. -/
theorem base32_stale (bytes : List Byte) :
    fromBase32 (toBase32 bytes) = .ok bytes ∧
    (∀ bits < 5, ∀ value value' : BitVec 32, low bits value = low bits value' →
      writeBase32 bytes bits value = writeBase32 bytes bits value') ∧
    ∀ text, ∀ bits < 8, ∀ value value' : BitVec 32, low bits value = low bits value' →
      readBase32 text bits value = readBase32 text bits value' :=
  ⟨fromBase32_toBase32 bytes, fun _ hbits _ _ h => writeBase32_congr bytes hbits h,
    fun text _ hbits _ _ h => readBase32_congr text hbits h⟩

end Janus.Auth
