import Janus.Auth.Enrolment
import Janus.Auth.Sealing
import Mathlib.Data.List.GetD

/-!
# Auth/TypedCodes — a recovery code is found however it is typed

The alphabet has none of the characters that are folded, so reading is the identity on a code minted
and folds every spelling onto it (`readRecoveryCode_spells`): what was hashed and what is looked up
are one text.
-/

namespace Janus.Auth

open Js Insertion Calls

/-! ## What is typed -/

/-- A letter from A to Z, in lower case. -/
def lowerUnit (u : CodeUnit) : CodeUnit :=
  if 65 ≤ u.val ∧ u.val ≤ 90 then Fin.ofNat 65536 (u.val + 32) else u

/-- What is documented of `toLowerCase`: in a text of ASCII and white space, it changes letters
only. -/
def LowersAscii (lower : Str → Str) : Prop :=
  ∀ text, (∀ u ∈ text, u.val < 128 ∨ isSpace u = true) → lower text = text.map lowerUnit

/-- A text without its white space and dashes. -/
def dropDashes (text : Str) : Str := text.filter fun u => !isSpace u && u ≠ 45

/-- A character as it may be typed: in either case, `o` for `0`, `i` or `l` for `1`. -/
def TypedAs (typed u : CodeUnit) : Prop :=
  lowerUnit typed = u ∨ u = 48 ∧ lowerUnit typed = 111 ∨
    u = 49 ∧ (lowerUnit typed = 105 ∨ lowerUnit typed = 108)

instance (typed u : CodeUnit) : Decidable (TypedAs typed u) :=
  inferInstanceAs (Decidable (_ ∨ _ ∨ _))

/-- A code typed, white space and dashes anywhere. -/
def Spells (typed code : Str) : Prop := List.Forall₂ TypedAs (dropDashes typed) (dropDashes code)

/-- A code as it is shown: ten characters of the alphabet, a dash after the fifth. -/
def IsRecoveryCode (code : Str) : Prop :=
  ∃ units : Str, units.length = 10 ∧ (∀ u ∈ units, u ∈ recoveryAlphabet) ∧
    code = units.take 5 ++ 45 :: units.drop 5

/-! ## What is minted -/

section Minted

variable {ctx : Context} {n : ℕ} {w w' : World} {calls : List Call}

theorem runs_drawUnits {units : Str} (h : Runs exec (drawUnits ctx n) w calls (.ok units) w') :
    units.length = n ∧ ∀ u ∈ units, u ∈ recoveryAlphabet := by
  induction n generalizing w w' calls units with
  | zero =>
    cases (Runs.done_cases h).1
    exact ⟨rfl, nofun⟩
  | succ n ih =>
    obtain ⟨drawn, _, _, _, -, h, -⟩ | ⟨_, he, -⟩ := Runs.bind_cases h
    case inr => cases he
    obtain ⟨rest, _, _, _, hrest, h, -⟩ | ⟨_, he, -⟩ := Runs.bind_cases h
    case inr => cases he
    cases (Runs.done_cases h).1
    obtain ⟨hlength, hunits⟩ := ih hrest
    refine ⟨congrArg Nat.succ hlength, fun u hu => ?_⟩
    rcases List.mem_cons.mp hu with rfl | hu
    · have hlt := Nat.mod_lt (ctx.runtime.randomInt drawn)
        (show 0 < recoveryAlphabet.length by decide)
      rw [List.getD_eq_getElem _ _ hlt]
      exact List.getElem_mem hlt
    · exact hunits u hu

/-- **Codes minted are recovery codes.** -/
theorem runs_mintCodes {codes : List Str} (h : Runs exec (mintCodes ctx n) w calls (.ok codes) w') :
    codes.length = n ∧ ∀ code ∈ codes, IsRecoveryCode code := by
  induction n generalizing w w' calls codes with
  | zero =>
    cases (Runs.done_cases h).1
    exact ⟨rfl, nofun⟩
  | succ n ih =>
    obtain ⟨units, _, _, _, hunits, h, -⟩ | ⟨_, he, -⟩ := Runs.bind_cases h
    case inr => cases he
    obtain ⟨rest, _, _, _, hrest, h, -⟩ | ⟨_, he, -⟩ := Runs.bind_cases h
    case inr => cases he
    cases (Runs.done_cases h).1
    obtain ⟨hlength, hall⟩ := ih hrest
    refine ⟨congrArg Nat.succ hlength, fun code hcode => ?_⟩
    rcases List.mem_cons.mp hcode with rfl | hcode
    · exact ⟨units, (runs_drawUnits hunits).1, (runs_drawUnits hunits).2, rfl⟩
    · exact hall code hcode

end Minted

/-! ## What is read -/

section Read

/-- No printed character of ASCII is white space. -/
theorem isSpace_printed {u : CodeUnit} (hlow : 33 ≤ u.val) (hhigh : u.val ≤ 126) :
    isSpace u = false := by
  simp [isSpace, Fin.ext_iff]
  omega

/-- The shape a code is held to is the alphabet's. -/
theorem isRecoveryUnit_of_mem : ∀ u ∈ recoveryAlphabet, isRecoveryUnit u = true :=
  List.all_eq_true.mp (by decide)

/-- No character of the alphabet is dropped or folded. -/
theorem recoveryAlphabet_read {u : CodeUnit} (h : u ∈ recoveryAlphabet) :
    u.val < 128 ∧ isSpace u = false ∧ u ≠ 45 ∧ u ≠ 0 ∧ u ≠ 111 ∧ u ≠ 105 ∧ u ≠ 108 := by
  have hunit := isRecoveryUnit_of_mem u h
  simp only [isRecoveryUnit, isDigit, Bool.or_eq_true, Bool.and_eq_true, decide_eq_true_eq] at hunit
  have hval : 48 ≤ u.val ∧ u.val ≤ 122 := by omega
  refine ⟨by omega, isSpace_printed (by omega) (by omega), ?_, ?_, ?_, ?_, ?_⟩
  · rintro rfl
    exact absurd hval.1 (by decide)
  · rintro rfl
    exact absurd hval.1 (by decide)
  all_goals
    rintro rfl
    simp at hunit

theorem val_lowerUnit (u : CodeUnit) :
    (lowerUnit u).val = if 65 ≤ u.val ∧ u.val ≤ 90 then u.val + 32 else u.val := by
  rw [lowerUnit]
  split
  case isTrue => exact Nat.mod_eq_of_lt (by omega)
  case isFalse => rfl

/-- Lower case leaves white space and dashes, and makes neither. -/
theorem kept_lowerUnit (u : CodeUnit) :
    (!isSpace (lowerUnit u) && decide (lowerUnit u ≠ 45)) = (!isSpace u && decide (u ≠ 45)) := by
  have hval := val_lowerUnit u
  by_cases h : 65 ≤ u.val ∧ u.val ≤ 90
  · rw [if_pos h] at hval
    have hne : lowerUnit u ≠ 45 := Fin.ne_of_val_ne (by rw [hval]; change _ ≠ 45; omega)
    have hne' : u ≠ 45 := Fin.ne_of_val_ne (by change _ ≠ 45; omega)
    rw [isSpace_printed (by omega) (by omega), isSpace_printed (by omega) (by omega)]
    simp [hne, hne']
  · rw [lowerUnit, if_neg h]

/-- A character typed is in ASCII. -/
theorem TypedAs.lt {typed u : CodeUnit} (h : TypedAs typed u) (hu : u.val < 128) :
    typed.val < 128 := by
  have hval := val_lowerUnit typed
  have hlower : (lowerUnit typed).val < 128 := by
    rcases h with h | ⟨-, h⟩ | ⟨-, h | h⟩ <;> rw [h]
    · exact hu
    all_goals decide
  split at hval <;> omega

/-- …and read as the character it stands for. -/
theorem TypedAs.fold {typed u : CodeUnit} (h : TypedAs typed u) (hu : u ∈ recoveryAlphabet) :
    (if lowerUnit typed = 111 then (48 : CodeUnit)
      else if lowerUnit typed = 105 ∨ lowerUnit typed = 108 then 49 else lowerUnit typed) = u := by
  obtain ⟨-, -, -, -, ho, hi, hl⟩ := recoveryAlphabet_read hu
  rcases h with rfl | ⟨rfl, h⟩ | ⟨rfl, h⟩
  · rw [if_neg ho, if_neg (not_or.mpr ⟨hi, hl⟩)]
  · rw [if_pos h]
  · rw [if_neg (by rcases h with h | h <;> rw [h] <;> decide), if_pos h]

theorem matchesAll_replicate {accepts : CodeUnit → Bool} {text : Str} {n : ℕ} :
    matchesAll (List.replicate n accepts) text = true ↔
      text.length = n ∧ ∀ u ∈ text, accepts u = true := by
  induction n generalizing text with
  | zero => cases text <;> simp [matchesAll]
  | succ n ih =>
    cases text with
    | nil => simp [matchesAll, List.replicate_succ]
    | cons u text => simp [matchesAll, List.replicate_succ, ih, and_left_comm]

/-- What is left of a code shown is its characters. -/
theorem dropDashes_code {units : Str} (h : ∀ u ∈ units, u ∈ recoveryAlphabet) :
    dropDashes (units.take 5 ++ 45 :: units.drop 5) = units := by
  have hkept : ∀ u ∈ units, (!isSpace u && decide (u ≠ 45)) = true := fun u hu => by
    obtain ⟨-, hspace, hdash, -⟩ := recoveryAlphabet_read (h u hu)
    simp [hspace, hdash]
  rw [dropDashes, List.filter_append, List.filter_cons_of_neg (by decide), ← List.filter_append,
    List.take_append_drop, List.filter_eq_self.mpr hkept]

/-- **Every spelling is read as the code**, and so is the code itself. -/
theorem readRecoveryCode_spells {ctx : Context} (hlower : LowersAscii ctx.runtime.toLowerCase)
    {typed code : Str} (hcode : IsRecoveryCode code) (h : Spells typed code) :
    readRecoveryCode ctx typed = some (dropDashes code) := by
  obtain ⟨units, hlength, hunits, rfl⟩ := hcode
  rw [dropDashes_code hunits]
  rw [Spells, dropDashes_code hunits] at h
  have hascii : ∀ u ∈ typed, u.val < 128 ∨ isSpace u = true := by
    intro u hu
    by_cases hkept : (!isSpace u && decide (u ≠ 45)) = true
    · obtain ⟨v, hv, htyped⟩ := h.exists_right (List.mem_filter.mpr ⟨hu, hkept⟩)
      exact Or.inl (htyped.lt (recoveryAlphabet_read (hunits v hv)).1)
    · by_cases hspace : isSpace u = true
      · exact Or.inr hspace
      · have hdash : u = 45 := by simpa [hspace] using hkept
        exact Or.inl (hdash ▸ by decide)
  have hread : ((ctx.runtime.toLowerCase typed).filter fun u => !isSpace u && u ≠ 45) =
      (dropDashes typed).map lowerUnit := by
    rw [hlower typed hascii, List.filter_map, dropDashes]
    exact congrArg _ (List.filter_congr fun u _ => kept_lowerUnit u)
  have hfold : (dropDashes typed).map (fun u => if lowerUnit u = 111 then (48 : CodeUnit)
      else if lowerUnit u = 105 ∨ lowerUnit u = 108 then 49 else lowerUnit u) = units := by
    clear hascii hread hlength
    generalize dropDashes typed = kept at h
    induction h with
    | nil => rfl
    | cons htyped _ ih =>
      rw [List.map_cons, htyped.fold (hunits _ List.mem_cons_self),
        ih fun u hu => hunits u (List.mem_cons_of_mem _ hu)]
  have hshape : matchesAll (List.replicate 10 isRecoveryUnit) units = true :=
    matchesAll_replicate.mpr ⟨hlength, fun u hu => isRecoveryUnit_of_mem u (hunits u hu)⟩
  rw [readRecoveryCode, hread, List.map_map]
  exact (congrArg (fun code => if matchesAll (List.replicate 10 isRecoveryUnit) code then some code
    else none) hfold).trans (if_pos hshape)

/-- A code is one of its spellings. -/
theorem IsRecoveryCode.spells {code : Str} (h : IsRecoveryCode code) : Spells code code := by
  obtain ⟨units, -, hunits, rfl⟩ := h
  rw [Spells, dropDashes_code hunits]
  refine List.forall₂_same.mpr fun u hu => Or.inl (Fin.ext ?_)
  have hunit := isRecoveryUnit_of_mem u (hunits u hu)
  simp only [isRecoveryUnit, isDigit, Bool.or_eq_true, Bool.and_eq_true, decide_eq_true_eq] at hunit
  rw [val_lowerUnit, if_neg (by omega)]

/-- Its characters say which code it is, and none of them separates what is hashed. -/
theorem IsRecoveryCode.eq_of_dropDashes {code code' : Str} (h : IsRecoveryCode code)
    (h' : IsRecoveryCode code') (heq : dropDashes code = dropDashes code') : code = code' := by
  obtain ⟨units, -, hunits, rfl⟩ := h
  obtain ⟨units', -, hunits', rfl⟩ := h'
  rw [dropDashes_code hunits, dropDashes_code hunits'] at heq
  rw [heq]

theorem IsRecoveryCode.zero_notMem {code : Str} (h : IsRecoveryCode code) :
    (0 : CodeUnit) ∉ dropDashes code := by
  obtain ⟨units, -, hunits, rfl⟩ := h
  rw [dropDashes_code hunits]
  exact fun h0 => (recoveryAlphabet_read (hunits 0 h0)).2.2.2.1 rfl

/-- What is read has the shape of a code. -/
theorem zero_notMem_readRecoveryCode {ctx : Context} {typed read : Str}
    (h : readRecoveryCode ctx typed = some read) : (0 : CodeUnit) ∉ read := by
  rw [readRecoveryCode] at h
  split at h
  case isTrue hshape =>
    cases h
    exact fun h0 => absurd ((matchesAll_replicate.mp hshape).2 0 h0) (by decide)
  case isFalse => cases h

end Read

/-! ## What is found -/

/-- What the runtime is documented to do: lower case in ASCII, base64url read back, and no dot in
it. -/
structure Documented (runtime : Runtime) : Prop where
  lowers : LowersAscii runtime.toLowerCase
  read_back : ∀ bytes, runtime.fromBase64url (runtime.toBase64url bytes) = bytes
  no_dot : ∀ bytes, (46 : CodeUnit) ∉ runtime.toBase64url bytes

section Found

variable {ctx : Context} {later sealer : Sealer} {userId userId' code typed where_ : Str}

theorem hashRecoveryCode_eq (hdocumented : Documented ctx.runtime) (hcode : IsRecoveryCode code) :
    hashRecoveryCode ctx sealer userId code = js "v1." ++ sealer.sealWith ++ js "." ++
      keyed ctx (firstKey ctx sealer recoveryPurpose) [userId, dropDashes code] := by
  rw [hashRecoveryCode, readRecoveryCode_spells hdocumented.lowers hcode hcode.spells,
    Option.getD_some]

/-- **A hash compared**: under the later key of the same id, with the user and the code looked for.
-/
theorem recoveryHashMatches_hash (hdocumented : Documented ctx.runtime) (hnamed : sealer.Named)
    (hcode : IsRecoveryCode code) (read : Option Str) :
    ∃ e, recoveryHashMatches ctx later userId (hashRecoveryCode ctx sealer userId' code)
      read where_ =
      match derivedKey ctx later recoveryPurpose sealer.sealWith with
      | none => .error e
      | some key => .ok (read.any fun c =>
          keyedHash ctx (firstKey ctx sealer recoveryPurpose) [userId', dropDashes code] =
            keyedHash ctx key [userId, c]) := by
  have hsplit : (hashRecoveryCode ctx sealer userId' code).splitOn 46 = [js "v1", sealer.sealWith,
      keyed ctx (firstKey ctx sealer recoveryPurpose) [userId', dropDashes code]] := by
    rw [hashRecoveryCode_eq hdocumented hcode]
    refine Eq.trans (congrArg (List.splitOn 46) ?_) (List.splitOn_intercalate 46 ?_ (by simp))
    · rw [show js "v1." = js "v1" ++ [46] from rfl, show js "." = [46] from rfl]
      simp [List.intercalate]
    · intro part hpart
      simp only [List.mem_cons, List.not_mem_nil, or_false] at hpart
      rcases hpart with rfl | rfl | rfl
      · decide
      · exact isKeyId_notMem (hnamed _ sealer.sealWith_held)
      · exact hdocumented.no_dot _
  rw [recoveryHashMatches, hsplit]
  dsimp only
  rw [if_neg (fun h => h rfl), keyed, hdocumented.read_back]
  cases derivedKey ctx later recoveryPurpose sealer.sealWith with
  | none => exact ⟨_, rfl⟩
  | some key => exact ⟨.typeError [], rfl⟩

/-- Where the key is still held, a hash matches its own code and no other. -/
theorem recoveryHashMatches_held (hdocumented : Documented ctx.runtime) (hnamed : sealer.Named)
    (hcode : IsRecoveryCode code) (hheld : StillHolds later sealer) (read : Str) :
    recoveryHashMatches ctx later userId (hashRecoveryCode ctx sealer userId code)
      (some read) where_ =
      .ok (decide (dropDashes code = read)) := by
  refine (recoveryHashMatches_hash hdocumented hnamed hcode (some read)).elim fun e h => h.trans ?_
  have hkey : derivedKey ctx later recoveryPurpose sealer.sealWith =
      some (firstKey ctx sealer recoveryPurpose) := by
    rw [derivedKey, hheld, ← Option.some_get sealer.sealWith_held, Option.map_some]
    rfl
  rw [hkey]
  refine congrArg Except.ok (Bool.eq_iff_iff.mpr ?_)
  rw [Option.any_some, decide_eq_true_eq, decide_eq_true_eq]
  constructor
  · intro hmac
    have htext := keyed_inj (congrArg ctx.runtime.toBase64url hmac)
    simpa [List.intercalate] using htext
  · rintro rfl
    rfl

/-- What a hash matches is its own user's, and is read as its code. -/
theorem recoveryHashMatches_sound (hdocumented : Documented ctx.runtime)
    (hideal : ∀ key key' text text',
      ctx.runtime.hmacSha256 key text = ctx.runtime.hmacSha256 key' text' →
      key = key' ∧ text = text') (hnamed : sealer.Named) (hcode : IsRecoveryCode code)
    (h : recoveryHashMatches ctx later userId (hashRecoveryCode ctx sealer userId' code)
      (readRecoveryCode ctx typed) where_ = .ok true) :
    userId' = userId ∧ readRecoveryCode ctx typed = some (dropDashes code) := by
  obtain ⟨e, hmatches⟩ := recoveryHashMatches_hash hdocumented hnamed hcode
    (readRecoveryCode ctx typed)
  rw [hmatches] at h
  cases hkey : derivedKey ctx later recoveryPurpose sealer.sealWith with
  | none =>
    rw [hkey] at h
    cases h
  | some key =>
    rw [hkey] at h
    obtain ⟨read, hread, hmac⟩ := (Option.any_eq_true _ _).mp (Except.ok.inj h)
    obtain ⟨-, htext⟩ := hideal _ _ _ _ (of_decide_eq_true hmac)
    have htext : userId' ++ 0 :: dropDashes code = userId ++ 0 :: read := by
      simpa [List.intercalate] using htext
    obtain ⟨hid, heq⟩ := append_cons_inj' hcode.zero_notMem
      (zero_notMem_readRecoveryCode hread) htext
    exact ⟨hid, hread.trans (congrArg some heq.symm)⟩

end Found

/-- A code of a user, and the keys it was hashed under. -/
structure MintedCode where
  userId : Str
  code : Str
  sealer : Sealer

/-- Its hash, as it is stored. -/
def MintedCode.hash (ctx : Context) (minted : MintedCode) : Str :=
  hashRecoveryCode ctx minted.sealer minted.userId minted.code

/-- A recovery code, hashed under named keys. -/
structure MintedCode.Proper (minted : MintedCode) : Prop where
  code : IsRecoveryCode minted.code
  named : minted.sealer.Named

/-- **A recovery code is found however it is typed.**  Of distinct codes minted for a user, each
typed in any letter case, with white space and dashes anywhere, `o` for `0` and `i` or `l` for `1`,
is found at its own index, under any later keys that still hold the one each was hashed under. 
Whatever is typed and under whatever keys, what is found is a code of this very user, the one the
text is read as — as long as no two keys and texts share a keyed hash. -/
theorem findRecoveryCode_typed {ctx : Context} (hdocumented : Documented ctx.runtime)
    (later : Sealer)
    (userId where_ : Str) :
    (∀ w calls codes w', Runs exec (mintRecoveryCodes ctx) w calls (.ok codes) w' →
      codes.length = recoveryCodeCount ∧ ∀ code ∈ codes, IsRecoveryCode code) ∧
    (∀ minted : List MintedCode, (minted.map (·.code)).Nodup →
      (∀ m ∈ minted, m.Proper ∧ m.userId = userId ∧ StillHolds later m.sealer) →
      ∀ k m typed, minted[k]? = some m → Spells typed m.code →
        findRecoveryCode ctx later userId (minted.map (·.hash ctx)) typed where_ = .ok (some k)) ∧
    ((∀ key key' text text', ctx.runtime.hmacSha256 key text = ctx.runtime.hmacSha256 key' text' →
        key = key' ∧ text = text') →
      ∀ stored : List MintedCode, (∀ m ∈ stored, m.Proper) → ∀ typed k,
        findRecoveryCode ctx later userId (stored.map (·.hash ctx)) typed where_ = .ok (some k) →
        ∃ m, stored[k]? = some m ∧ m.userId = userId ∧
          readRecoveryCode ctx typed = some (dropDashes m.code)) := by
  refine ⟨fun w calls codes w' h => runs_mintCodes h, ?_, ?_⟩
  · intro minted hnodup hminted k m typed hk htyped
    obtain ⟨hlt, rfl⟩ := List.getElem?_eq_some_iff.mp hk
    have hread := readRecoveryCode_spells hdocumented.lowers
      (hminted _ (List.getElem_mem hlt)).1.code htyped
    have hmatched : (minted.map (·.hash ctx)).mapM (fun hash =>
        recoveryHashMatches ctx later userId hash (readRecoveryCode ctx typed) where_) =
        .ok (minted.map fun m' => decide (dropDashes m'.code = dropDashes minted[k].code)) := by
      rw [List.mapM_map]
      refine List.mapM_eq_ok fun m' hm' => ?_
      obtain ⟨hproper, rfl, hheld⟩ := hminted m' hm'
      rw [hread]
      exact recoveryHashMatches_held hdocumented hproper.named hproper.code hheld _
    rw [findRecoveryCode, hmatched]
    refine congrArg Except.ok
      (List.idxOf?_eq_some_iff.mpr ⟨by simpa using hlt, by simp, fun j hj => ?_⟩)
    rw [List.getElem_map, decide_eq_true_eq]
    intro heq
    have hcode := (hminted _ (List.getElem_mem _)).1.code.eq_of_dropDashes
      (hminted _ (List.getElem_mem hlt)).1.code heq
    have hsame : (minted.map (·.code))[j]? = (minted.map (·.code))[k]? := by
      rw [List.getElem?_map, List.getElem?_map, List.getElem?_eq_getElem (hj.trans hlt),
        List.getElem?_eq_getElem hlt, Option.map_some, Option.map_some, hcode]
    exact Nat.ne_of_lt hj ((List.getElem?_inj (by simpa using hj.trans hlt) hnodup).mp hsame)
  · intro hideal stored hstored typed k hfound
    obtain ⟨matched, hmatched, hk⟩ := Except.bind_ok.mp hfound
    obtain ⟨hlt, htrue, -⟩ := List.idxOf?_eq_some_iff.mp (Except.pure_ok.mp hk)
    obtain ⟨hash, hhash, hmatches⟩ := List.mapM_ok hmatched
      ((List.getElem?_eq_getElem hlt).trans (congrArg some htrue))
    rw [List.getElem?_map, Option.map_eq_some_iff] at hhash
    obtain ⟨m, hm, rfl⟩ := hhash
    have hproper := hstored m (List.mem_of_getElem? hm)
    exact ⟨m, hm, recoveryHashMatches_sound hdocumented hideal hproper.named hproper.code hmatches⟩

/-! ## A clinic whose keyed hash is its key and its text -/

/-- A key and a text, framed. -/
def framed : List Byte → Str → List Byte
  | [], [] => [2]
  | [], u :: text => 1 :: Fin.ofNat 256 (u.val / 256) :: Fin.ofNat 256 u.val :: framed [] text
  | b :: key, text => 0 :: b :: 0 :: framed key text

def unframed : List Byte → List Byte × Str
  | tag :: first :: second :: rest =>
    let (key, text) := unframed rest
    if tag = 0 then (first :: key, text)
    else (key, Fin.ofNat 65536 (first.val * 256 + second.val) :: text)
  | _ => ([], [])

theorem unframed_framed (key : List Byte) (text : Str) :
    unframed (framed key text) = (key, text) := by
  fun_induction framed key text with
  | case1 => rfl
  | case2 u text ih =>
    have hunit : Fin.ofNat 65536 ((Fin.ofNat 256 (u.val / 256)).val * 256 +
        (Fin.ofNat 256 u.val).val) = u := Fin.ext (by simp only [Fin.ofNat]; omega)
    rw [unframed, ih]
    dsimp only
    rw [if_neg (by decide), hunit]
  | case3 b key text ih =>
    rw [unframed, ih]
    exact if_pos rfl

theorem framed_injective {key key' : List Byte} {text text' : Str}
    (h : framed key text = framed key' text') : key = key' ∧ text = text' := by
  have h := congrArg unframed h
  rw [unframed_framed, unframed_framed] at h
  exact Prod.mk.inj h

theorem length_framed (key : List Byte) (text : Str) :
    (framed key text).length = 3 * (key.length + text.length) + 1 := by
  fun_induction framed key text with
  | case1 => rfl
  | case2 u text ih =>
    simp only [List.length_cons, ih, List.length_nil]
    omega
  | case3 b key text ih =>
    simp only [List.length_cons, ih]
    omega

theorem length_of_isId {id : Str} (h : isId id = true) : id.length = 36 := by
  have hlength : ∀ {accepts : List (CodeUnit → Bool)} {text : Str},
      matchesAll accepts text = true → text.length = accepts.length := by
    intro accepts text h
    induction accepts generalizing text with
    | nil => cases text <;> simp_all [matchesAll]
    | cons one accepts ih =>
      cases text with
      | nil => simp [matchesAll] at h
      | cons u text =>
        rw [matchesAll, Bool.and_eq_true] at h
        rw [List.length_cons, ih h.2, List.length_cons]
  exact hlength h

/-- Lower case, base64url and keyed hashes as they are documented. -/
def framingRuntime : Runtime :=
  { plainRuntime with
    hmacSha256 := framed
    toBase64url := toBase64url
    fromBase64url := fromBase64url
    toLowerCase := List.map lowerUnit
    keyed_injective := fun key text text' h => by
      have hbytes := congrArg fromBase64url h
      rw [fromBase64url_toBase64url, fromBase64url_toBase64url] at hbytes
      exact (framed_injective hbytes).2
    keyed_not_id := fun key text => by
      refine Bool.eq_false_iff.mpr fun h => ?_
      have hlength := length_of_isId h
      rw [length_toBase64url, length_framed] at hlength
      omega
    secret_ne_keyed := fun n key text h => by
      have hcolon : (58 : CodeUnit) ∈ toBase64url (framed key text) :=
        h ▸ List.mem_append_left _ (by decide)
      exact absurd (isBase64urlUnit_of_mem hcolon) (by decide) }

theorem documented_framingRuntime : Documented framingRuntime where
  lowers _ _ := rfl
  read_back := fromBase64url_toBase64url
  no_dot _ h := absurd (isBase64urlUnit_of_mem h) (by decide)

def framingClinic : Context := { clinic with runtime := framingRuntime }

/-- Two codes of Ada's, hashed before and after the rotation, and one of Bob's. -/
def adaFirst : MintedCode := ⟨ada.id, js "7k2mq-x9d4c", formerKeys⟩

def adaSecond : MintedCode := ⟨ada.id, js "01abc-defgh", rotatedKeys⟩

def bobs : MintedCode := ⟨js "bob", js "01abc-defgh", rotatedKeys⟩

/-- Ada's second code is found as she typed it; Bob's hash, on her record, is not. -/
theorem findRecoveryCode_typed_badly :
    findRecoveryCode framingClinic rotatedKeys ada.id
    ([adaFirst, adaSecond].map (·.hash framingClinic))
      (js " oL-aB c--DEF gh") [] = .ok (some 1) ∧
    findRecoveryCode framingClinic rotatedKeys ada.id ([bobs].map (·.hash framingClinic))
      (js "01abc-defgh") [] ≠ .ok (some 0) := by
  have hnamed : formerKeys.Named ∧ rotatedKeys.Named := by
    constructor
    all_goals
      intro id hid
      obtain ⟨secret, hget⟩ := Option.isSome_iff_exists.mp hid
      have hmem := mem_of_get hget
      simp only [formerKeys, rotatedKeys, List.mem_cons, Prod.mk.injEq, List.not_mem_nil, or_false]
        at hmem
    · rw [hmem.1]
      rfl
    · rcases hmem with ⟨rfl, -⟩ | ⟨rfl, -⟩ <;> rfl
  have hfirst : IsRecoveryCode (js "7k2mq-x9d4c") :=
    ⟨js "7k2mqx9d4c", by decide, by simpa using List.all_eq_true.mp (by decide : (js "7k2mqx9d4c").all
      (recoveryAlphabet.contains ·) = true), by decide⟩
  have hsecond : IsRecoveryCode (js "01abc-defgh") :=
    ⟨js "01abcdefgh", by decide, by simpa using List.all_eq_true.mp (by decide : (js "01abcdefgh").all
      (recoveryAlphabet.contains ·) = true), by decide⟩
  have hzip : ((dropDashes (js " oL-aB c--DEF gh")).zip (dropDashes (js "01abc-defgh"))).all
      (fun pair => decide (TypedAs pair.1 pair.2)) = true := by decide
  have hspells : Spells (js " oL-aB c--DEF gh") (js "01abc-defgh") :=
    List.forall₂_iff_zip.mpr ⟨by decide, fun h => of_decide_eq_true (List.all_eq_true.mp hzip _ h)⟩
  have hdocumented : Documented framingClinic.runtime := documented_framingRuntime
  obtain ⟨-, hfound, hsound⟩ := findRecoveryCode_typed hdocumented rotatedKeys ada.id []
  refine ⟨hfound [adaFirst, adaSecond] (by decide) (fun m hm => ?_) 1 adaSecond _ rfl hspells,
    fun h => ?_⟩
  · simp only [List.mem_cons, List.not_mem_nil, or_false] at hm
    rcases hm with rfl | rfl
    · exact ⟨⟨hfirst, hnamed.1⟩, rfl, rfl⟩
    · exact ⟨⟨hsecond, hnamed.2⟩, rfl, rfl⟩
  · obtain ⟨m, hm, hid, -⟩ := hsound (fun _ _ _ _ => framed_injective) [bobs]
      (fun m hm => List.mem_singleton.mp hm ▸ ⟨hsecond, hnamed.2⟩) _ 0 h
    cases hm
    exact absurd hid (by decide)

end Janus.Auth
