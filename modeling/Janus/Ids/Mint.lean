import Janus.Auth.Context
import Janus.Js.Json

/-!
# Ids/Mint — minted ids strictly increase

An id is a millisecond and a count within it, written as hex fields around a version and a variant,
and a random tail.  The millisecond is carried from one id to the next, so a clock that repeats or
goes back is counted in (`Minter.next_after`), and what is counted up is read in the order of
strings (`idText_lt`).
-/

namespace Janus.Ids

open Js Js.Json Auth

/-! ## Minting -/

/-- What one id leaves for the next. -/
structure Minter where
  lastMs : ℤ
  sequence : ℕ
deriving DecidableEq

/-- The minter of a process that has minted none. -/
def Minter.fresh : Minter := ⟨-1, 0⟩

def SEQUENCE_MAX : ℕ := 0xfff

/-- One more id in the millisecond of the last: past the most, the next millisecond is borrowed. -/
def Minter.count (m : Minter) : Minter :=
  if SEQUENCE_MAX < m.sequence + 1 then ⟨m.lastMs + 1, 0⟩ else ⟨m.lastMs, m.sequence + 1⟩

/-- The millisecond and the count of the next id. -/
def Minter.next (m : Minter) (now : ℕ) : Minter :=
  if now = m.lastMs then m.count
  else if m.lastMs < now then ⟨now, 0⟩
  -- The clock went backwards: the last millisecond is held.
  else m.count

/-- `x & mask`: the number as 32 bits first. -/
def and32 (x mask : ℤ) : ℕ := (BitVec.ofInt 32 x &&& BitVec.ofInt 32 mask).toNat

/-- The eight bytes the runtime draws. -/
abbrev Random := Fin 8 → Fin 256

/-- `HEX[byte]`. -/
def HEX (byte : ℕ) : Str := [hexDigit (byte / 16), hexDigit (byte % 16)]

/-- An id as text: its bytes, in fields. -/
def idText (ms : ℤ) (sequence : ℕ) (random : Random) : Str :=
  HEX (and32 (ms / 2 ^ 40) 0xff) ++ HEX (and32 (ms / 2 ^ 32) 0xff) ++
    HEX (and32 (ms / 2 ^ 24) 0xff) ++ HEX (and32 (ms / 2 ^ 16) 0xff) ++ js "-" ++
  (HEX (and32 (ms / 2 ^ 8) 0xff) ++ HEX (and32 ms 0xff)) ++ js "-" ++
  (HEX (0x70 ||| and32 (sequence >>> 8 : ℕ) 0x0f) ++ HEX (and32 sequence 0xff)) ++ js "-" ++
  (HEX (0x80 ||| and32 (random 0).val 0x3f) ++ HEX (random 1)) ++ js "-" ++
  (HEX (random 2) ++ HEX (random 3) ++ HEX (random 4) ++ HEX (random 5) ++ HEX (random 6) ++
    HEX (random 7))

def mintId (m : Minter) (now : ℕ) (random : Random) : Str × Minter :=
  let next := m.next now
  (idText next.lastMs next.sequence random, next)

/-- The ids of one process, one after the other. -/
def mintAll (m : Minter) : List (ℕ × Random) → List Str × Minter
  | [] => ([], m)
  | (now, random) :: calls =>
    let (id, m) := mintId m now random
    let (ids, m) := mintAll m calls
    (id :: ids, m)

/-! ## Hex in the order of numbers -/

theorem hexDigit_lt : ∀ m < 16, ∀ n < m, hexDigit n < hexDigit m := by decide

theorem isHexDigit_hexDigit : ∀ n < 16, isHexDigit (hexDigit n) := by decide

/-- The lowest digits of a number, as many as these. -/
def digits : ℕ → ℕ → Str
  | 0, _ => []
  | k + 1, n => digits k (n / 16) ++ [hexDigit (n % 16)]

@[simp] theorem length_digits (k n : ℕ) : (digits k n).length = k := by
  induction k generalizing n with
  | zero => rfl
  | succ k ih => rw [digits, List.length_append, ih, List.length_singleton]

theorem digits_eq_HEX (n : ℕ) : digits 2 n = HEX (n % 256) := by
  rw [HEX, Nat.mod_mod_of_dvd _ (by decide), show n % 256 / 16 = n / 16 % 16 by omega]
  rfl

/-- Two digits at a time. -/
theorem digits_add_two (k n : ℕ) : digits (k + 2) n = digits k (n / 256) ++ HEX (n % 256) := by
  rw [← digits_eq_HEX, digits, digits, digits, digits, digits, Nat.div_div_eq_div_mul,
    List.append_assoc]
  rfl

/-- What differs before the end decides. -/
theorem append_lt_append {a b x y : Str} (hlength : a.length = b.length) (h : a < b) :
    a ++ x < b ++ y := by
  induction a generalizing b with
  | nil =>
    obtain rfl : b = [] := List.length_eq_zero_iff.mp hlength.symm
    exact absurd h (List.lt_irrefl _)
  | cons u a ih =>
    cases b with
    | nil => exact absurd hlength (Nat.succ_ne_zero _)
    | cons v b =>
      rw [List.cons_append, List.cons_append, List.cons_lt_cons_iff]
      rcases List.cons_lt_cons_iff.mp h with h | ⟨heq, h⟩
      · exact Or.inl h
      · exact Or.inr ⟨heq, ih (Nat.succ_injective hlength) h⟩

/-- **Digits of one length are in the order of their numbers.** -/
theorem digits_lt {k m n : ℕ} (h : m < n) (hn : n < 16 ^ k) : digits k m < digits k n := by
  induction k generalizing m n with
  | zero => exact absurd (Nat.lt_one_iff.mp hn ▸ h) (Nat.not_lt_zero m)
  | succ k ih =>
    rw [digits, digits]
    rcases Nat.lt_or_ge (m / 16) (n / 16) with hlt | hge
    · refine append_lt_append (by simp) (ih hlt ?_)
      rw [Nat.pow_succ] at hn
      omega
    · have heq : m / 16 = n / 16 := by omega
      rw [heq]
      refine List.append_left_lt (List.cons_lt_cons_iff.mpr (Or.inl ?_))
      exact hexDigit_lt _ (by omega) _ (by omega)

/-! ## An id's text -/

/-- A number's lowest bits. -/
theorem and32_mask {n : ℕ} {mask : ℤ} (k : ℕ) (hk : k ≤ 32)
    (hmask : (BitVec.ofInt 32 mask).toNat = 2 ^ k - 1) : and32 n mask = n % 2 ^ k := by
  rw [and32, BitVec.toNat_and, hmask, Nat.and_two_pow_sub_one_eq_mod, BitVec.ofInt_natCast,
    BitVec.toNat_ofNat, Nat.mod_mod_of_dvd _ (Nat.pow_dvd_pow 2 hk)]

theorem and32_byte (n : ℕ) : and32 n 0xff = n % 256 := and32_mask 8 (by decide) (by decide)

/-- The version above the count's first digit. -/
theorem version_or : ∀ n < 16, 0x70 ||| n = 112 + n := by decide

/-- A byte of a millisecond. -/
theorem and32_shift (ms k : ℕ) : and32 ((ms : ℤ) / 2 ^ k) 0xff = ms / 2 ^ k % 256 := by
  rw [← and32_byte]
  push_cast
  rfl

/-- **An id's text begins with its millisecond and its count**, in digits. -/
theorem idText_eq (ms : ℕ) {sequence : ℕ} (hsequence : sequence ≤ SEQUENCE_MAX) (random : Random) :
    ∃ rest, idText ms sequence random =
      digits 8 (ms / 2 ^ 16) ++ (45 :: (digits 4 (ms % 2 ^ 16) ++ (45 :: 55 :: (digits 3 sequence ++
        rest)))) := by
  have hhigh : HEX (and32 ((ms : ℤ) / 2 ^ 40) 0xff) ++ HEX (and32 ((ms : ℤ) / 2 ^ 32) 0xff) ++
      HEX (and32 ((ms : ℤ) / 2 ^ 24) 0xff) ++ HEX (and32 ((ms : ℤ) / 2 ^ 16) 0xff) =
      digits 8 (ms / 2 ^ 16) := by
    simp only [and32_shift, digits_add_two 6, digits_add_two 4, digits_add_two 2, digits_eq_HEX,
      Nat.div_div_eq_div_mul, Nat.reducePow, Nat.reduceMul]
  have hlow : HEX (and32 ((ms : ℤ) / 2 ^ 8) 0xff) ++ HEX (and32 ms 0xff) =
    digits 4 (ms % 2 ^ 16) := by
    rw [and32_shift, and32_byte, digits_add_two 2, digits_eq_HEX,
      show ms % 2 ^ 16 / 256 % 256 = ms / 2 ^ 8 % 256 by omega,
      show ms % 2 ^ 16 % 256 = ms % 256 by omega]
  have hcount : HEX (0x70 ||| and32 (sequence >>> 8 : ℕ) 0x0f) ++ HEX (and32 sequence 0xff) =
      55 :: digits 3 sequence := by
    have hfirst : and32 (sequence >>> 8 : ℕ) 0x0f = sequence / 256 := by
      rw [and32_mask 4 (by decide) (by decide), Nat.shiftRight_eq_div_pow]
      rw [SEQUENCE_MAX] at hsequence
      omega
    have hlt : sequence / 256 < 16 := by
      rw [SEQUENCE_MAX] at hsequence
      omega
    rw [hfirst, and32_byte, version_or _ hlt, digits_add_two 1, HEX,
      show (112 + sequence / 256) / 16 = 7 by omega,
      show (112 + sequence / 256) % 16 = sequence / 256 % 16 by omega]
    rfl
  rw [idText, hhigh, hlow, hcount]
  simp only [List.append_assoc]
  exact ⟨_, rfl⟩

/-- **Ids are in the order of their milliseconds, and of their counts within one.** -/
theorem idText_lt {ms ms' sequence sequence' : ℕ} (hms : ms' < 2 ^ 48)
    (hsequence : sequence ≤ SEQUENCE_MAX) (hsequence' : sequence' ≤ SEQUENCE_MAX)
    (h : ms < ms' ∨ ms = ms' ∧ sequence < sequence') (random random' : Random) :
    idText ms sequence random < idText ms' sequence' random' := by
  obtain ⟨rest, htext⟩ := idText_eq ms hsequence random
  obtain ⟨rest', htext'⟩ := idText_eq ms' hsequence' random'
  rw [htext, htext']
  rcases h with h | ⟨rfl, h⟩
  · rcases Nat.lt_or_ge (ms / 2 ^ 16) (ms' / 2 ^ 16) with hlt | hge
    · exact append_lt_append (by simp) (digits_lt hlt (by omega))
    · rw [show ms / 2 ^ 16 = ms' / 2 ^ 16 by omega]
      refine List.append_left_lt (List.cons_lt_cons_iff.mpr (Or.inr ⟨rfl, ?_⟩))
      exact append_lt_append (by simp) (digits_lt (by omega) (Nat.mod_lt _ (by decide)))
  · refine List.append_left_lt (List.cons_lt_cons_iff.mpr (Or.inr ⟨rfl, List.append_left_lt ?_⟩))
    refine List.cons_lt_cons_iff.mpr (Or.inr ⟨rfl, List.cons_lt_cons_iff.mpr (Or.inr ⟨rfl, ?_⟩)⟩)
    refine append_lt_append (by simp) (digits_lt h ?_)
    rw [SEQUENCE_MAX] at hsequence'
    omega

/-- A byte's two digits. -/
theorem isHexDigit_HEX {byte : ℕ} (h : byte < 256) :
    isHexDigit (hexDigit (byte / 16)) ∧ isHexDigit (hexDigit (byte % 16)) :=
  ⟨isHexDigit_hexDigit _ (by omega), isHexDigit_hexDigit _ (by omega)⟩

/-- The first digit of the version, and of the variant. -/
theorem version_digit : ∀ n < 16, unit 55 (hexDigit ((0x70 ||| n) / 16)) := by decide

theorem variant_digit : ∀ n < 64, (fun u => unit 56 u || unit 57 u || unit 97 u || unit 98 u)
    (hexDigit ((0x80 ||| n) / 16)) := by decide

/-- **What is minted is an id.** -/
theorem isId_idText (ms sequence : ℕ) (random : Random) : isId (idText ms sequence random) := by
  have hshift := fun k => isHexDigit_HEX (and32_shift ms k ▸ Nat.mod_lt _ (by decide) :
    and32 ((ms : ℤ) / 2 ^ k) 0xff < 256)
  have hbyte := fun n => isHexDigit_HEX (and32_byte n ▸ Nat.mod_lt _ (by decide) :
    and32 (n : ℕ) 0xff < 256)
  have hrandom := fun i => isHexDigit_HEX (random i).isLt
  have hcount : and32 (sequence >>> 8 : ℕ) 0x0f < 16 := by
    rw [and32_mask 4 (by decide) (by decide)]
    exact Nat.mod_lt _ (by decide)
  have hbits : and32 (random 0).val 0x3f < 64 := by
    rw [and32_mask 6 (by decide) (by decide)]
    exact Nat.mod_lt _ (by decide)
  have hversion := isHexDigit_hexDigit _ (Nat.mod_lt (0x70 ||| and32 (sequence >>> 8 : ℕ) 0x0f)
    (by decide : 16 > 0))
  have hvariant := isHexDigit_hexDigit _ (Nat.mod_lt (0x80 ||| and32 (random 0).val 0x3f)
    (by decide : 16 > 0))
  have hvariant' := variant_digit _ hbits
  have hhyphen : js "-" = [45] := rfl
  have hunit : unit 45 45 := rfl
  simp only [Bool.or_eq_true] at hvariant'
  simp [isId, uuidV7, matchesAll, idText, HEX, hhyphen, hunit, List.replicate, hshift, hbyte,
    hrandom, hversion, hvariant, hvariant', version_digit _ hcount, -Int.reducePow,
    -Int.natCast_shiftRight]

/-! ## The minter -/

/-- What a minter carries: a millisecond, or none yet, and a count within it. -/
def Minter.Sound (m : Minter) : Prop := -1 ≤ m.lastMs ∧ m.sequence ≤ SEQUENCE_MAX

/-- One carries more than another. -/
def Minter.Before (m m' : Minter) : Prop :=
  m.lastMs < m'.lastMs ∨ m.lastMs = m'.lastMs ∧ m.sequence < m'.sequence

theorem Minter.Before.trans {m m' m'' : Minter} (h : m.Before m') (h' : m'.Before m'') :
    m.Before m'' := by
  unfold Before at *
  omega

/-- **Whatever the clock reads, the next id comes after.** -/
theorem Minter.next_after {m : Minter} (h : m.Sound) (now : ℕ) :
    (m.next now).Sound ∧ 0 ≤ (m.next now).lastMs ∧ m.Before (m.next now) := by
  obtain ⟨hms, hsequence⟩ := h
  have hcount : -1 ≤ m.count.lastMs ∧ m.count.sequence ≤ SEQUENCE_MAX ∧ m.Before m.count ∧
      m.lastMs ≤ m.count.lastMs := by
    rw [count]
    split
    case isTrue =>
      have hlt : m.lastMs < m.lastMs + 1 := Int.lt_succ _
      exact ⟨hms.trans hlt.le, Nat.zero_le _, Or.inl hlt, hlt.le⟩
    case isFalse hmost =>
      exact ⟨hms, not_lt.mp hmost, Or.inr ⟨rfl, Nat.lt_succ_self _⟩, le_rfl⟩
  rw [next]
  split
  case isTrue hsame => exact ⟨⟨hcount.1, hcount.2.1⟩, by omega, hcount.2.2.1⟩
  case isFalse hother =>
    split
    case isTrue hlater =>
      exact ⟨⟨hms.trans hlater.le, Nat.zero_le _⟩, Int.natCast_nonneg now, Or.inl hlater⟩
    case isFalse hearlier => exact ⟨⟨hcount.1, hcount.2.1⟩, by omega, hcount.2.2.1⟩

/-- The milliseconds of a run never go back. -/
theorem lastMs_mintAll {m : Minter} (h : m.Sound) (calls : List (ℕ × Random)) :
    m.lastMs ≤ (mintAll m calls).2.lastMs := by
  induction calls generalizing m with
  | nil => exact le_rfl
  | cons call calls ih =>
    obtain ⟨hsound, -, hbefore⟩ := Minter.next_after h call.1
    refine le_trans ?_ (ih hsound)
    rcases hbefore with hlt | ⟨heq, -⟩
    · exact hlt.le
    · exact heq.le

/-- **Every id of a run is one, and comes after what the minter carried before it.** -/
theorem mem_mintAll {m : Minter} (h : m.Sound) {calls : List (ℕ × Random)} {text : Str}
    (hmem : text ∈ (mintAll m calls).1) (hroom : (mintAll m calls).2.lastMs < 2 ^ 48) :
    ∃ (ms sequence : ℕ) (random : Random), text = idText ms sequence random ∧ ms < 2 ^ 48 ∧
      sequence ≤ SEQUENCE_MAX ∧ m.Before ⟨ms, sequence⟩ := by
  induction calls generalizing m with
  | nil => exact absurd hmem List.not_mem_nil
  | cons call calls ih =>
    obtain ⟨hsound, hms, hbefore⟩ := Minter.next_after h call.1
    rcases List.mem_cons.mp hmem with rfl | hmem
    · obtain ⟨ms, hms⟩ := Int.eq_ofNat_of_zero_le hms
      have hlast := lastMs_mintAll hsound calls
      refine ⟨ms, (m.next call.1).sequence, call.2, by rw [← hms], ?_, hsound.2, ?_⟩
      · have hroom : (mintAll (m.next call.1) calls).2.lastMs < 2 ^ 48 := hroom
        omega
      · rwa [← hms]
    · obtain ⟨ms, sequence, random, htext, hlt, hle, hafter⟩ := ih hsound hmem hroom
      exact ⟨ms, sequence, random, htext, hlt, hle, hbefore.trans hafter⟩

theorem pairwise_mintAll {m : Minter} (h : m.Sound) {calls : List (ℕ × Random)}
    (hroom : (mintAll m calls).2.lastMs < 2 ^ 48) : (mintAll m calls).1.Pairwise (· < ·) := by
  induction calls generalizing m with
  | nil => exact List.Pairwise.nil
  | cons call calls ih =>
    obtain ⟨hsound, hms, -⟩ := Minter.next_after h call.1
    obtain ⟨ms, hms⟩ := Int.eq_ofNat_of_zero_le hms
    refine List.Pairwise.cons (fun text htext => ?_) (ih hsound hroom)
    obtain ⟨ms', sequence', random', rfl, hlt, hle, hbefore⟩ := mem_mintAll hsound htext hroom
    simp only [Minter.Before, hms] at hbefore
    rw [hms]
    exact idText_lt hlt hsound.2 hle (by omega) _ _

/-- **The ids of a process strictly increase, and every one is an id**, whatever its clock reads and
its random source draws, as long as no millisecond is past 48 bits. -/
theorem mintAll_increasing (calls : List (ℕ × Random))
    (hroom : (mintAll .fresh calls).2.lastMs < 2 ^ 48) :
    (∀ id ∈ (mintAll .fresh calls).1, isId id) ∧ (mintAll .fresh calls).1.Pairwise (· < ·) := by
  have hfresh : Minter.fresh.Sound := ⟨le_rfl, Nat.zero_le _⟩
  refine ⟨fun id hid => ?_, pairwise_mintAll hfresh hroom⟩
  obtain ⟨ms, sequence, random, rfl, -⟩ := mem_mintAll hfresh hid hroom
  exact isId_idText ms sequence random

/-- A clock that repeats and goes back. -/
theorem mintAll_increasing_back :
    (mintAll .fresh [(1000, fun _ => 7), (1000, fun _ => 3), (900, fun _ => 5)]).1.Pairwise (· < ·) :=
  (mintAll_increasing _ (by decide)).2

end Janus.Ids
