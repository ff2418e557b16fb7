import Janus.Auth.OneTime
import Janus.Auth.Throttle

/-!
# Auth/Factor — a second factor's secret, its codes and its recovery codes

A secret is sealed under a key the application holds and bound to its user; a code is the one RFC
6238 shows at one of three steps, each used once; a recovery code is found by its keyed hash.
-/

namespace Janus.Auth

open Js Insertion Calls

/-! ## Sealing -/

/-- GCM's tag. -/
def tagBytes : ℕ := 16

/-- Seals `plain` under the first key, bound to the user's id. -/
def seal_ (ctx : Context) (sealer : Sealer) (plain boundTo : Str) : Flow Str := do
  let key := (get sealer.keys sealer.sealWith).get sealer.sealWith_held
  let iv ← ctx.runtime.iv <$> call .draw
  let bytes := ctx.runtime.encrypt key iv boundTo plain
  pure (js "v1." ++ sealer.sealWith ++ js "." ++ ctx.runtime.toBase64url iv ++ js "." ++
    ctx.runtime.toBase64url bytes)

/-- Opens a sealed secret, and says which key sealed it. -/
def unseal_ (ctx : Context) (sealer : Sealer) (sealed boundTo where_ : Str) :
    Except Failure (Str × Str) :=
  match sealed.splitOn 46 with
  | [version, keyId, iv, body] =>
    let bytes := ctx.runtime.fromBase64url body
    if version ≠ js "v1" ∨ bytes.length ≤ tagBytes then notSealed
    else
      match get sealer.keys keyId with
      | none => throw <| .typeError <|
        where_ ++ js ": the secret is sealed with the key \"" ++ keyId ++
          js "\", which secondFactor.keys no longer holds — keep a key until no secret is sealed with it"
      | some key =>
        match ctx.runtime.decrypt key (ctx.runtime.fromBase64url iv) boundTo bytes with
        | none => throw <| .typeError <|
          where_ ++ js ": the secret does not open with the key \"" ++ keyId ++
            js "\" — was that key changed under the same id, or the secret copied from another user?"
        | some plain => pure (plain, keyId)
  | _ => notSealed
where
  notSealed : Except Failure (Str × Str) :=
    throw <| .typeError <| where_ ++ js ": the stored secret is not a sealed one"

/-! ## Codes -/

/-- A step of RFC 6238, in milliseconds. -/
def stepMs : ℕ := 30000

/-- Where a character stands in base32. -/
def base32Index (u : CodeUnit) : Option ℕ :=
  if 65 ≤ u.val ∧ u.val ≤ 90 then some (u.val - 65)
  else if 50 ≤ u.val ∧ u.val ≤ 55 then some (u.val - 24)
  else none

/-- `bits` bits of `value` still to be written, then the rest of the text.  The word is never
cleared: what was written of it stays above. -/
def readBase32 : Str → (bits : ℕ) → (value : BitVec 32) → Except Failure (List Byte)
  | [], _, _ => pure []
  | u :: text, bits, value =>
    match base32Index u with
    | none => throw (.typeError (js "totp: the secret is not base32"))
    | some index =>
      let value := value <<< 5 ||| BitVec.ofNat 32 index
      let bits := bits + 5
      if 8 ≤ bits then do
        let rest ← readBase32 text (bits - 8) value
        pure (Fin.ofNat 256 (value >>> (bits - 8) &&& 255).toNat :: rest)
      else readBase32 text bits value

def fromBase32 (text : Str) : Except Failure (List Byte) := readBase32 text 0 0

/-- The step a moment falls in. -/
def stepAt (now : Time) : ℕ := now / stepMs

/-- A counter, in eight bytes, the highest first. -/
def counterBytes (step : ℕ) : List Byte :=
  (List.range 8).reverse.map fun i => Fin.ofNat 256 (step / 256 ^ i)

/-- The code of one counter value, padded to six digits. -/
def codeAt (ctx : Context) (secret : List Byte) (step : ℤ) : Except Failure Str :=
  if step < 0 then
    throw (.rangeError (js "The value of \"value\" is out of range."))
  else
    let digest := ctx.runtime.hmacSha1 secret (counterBytes step.toNat)
    let offset := (digest.getD 19 0).val % 16
    let binary := ((digest.drop offset).take 4).foldl (fun n byte => n * 256 + byte.val) 0 % 2 ^ 31
    let digits := decimal (binary % 10 ^ 6)
    pure (List.replicate (6 - digits.length) 48 ++ digits)

/-- The earliest of these steps the code was shown at, of those after the last one used. -/
def matchSteps (ctx : Context) (secret : List Byte) (code : Str) (lastStep : Option ℕ) :
    List ℤ → Except Failure (Option ℤ)
  | [] => pure none
  | step :: steps => do
    let shown ← codeAt ctx secret step
    let later ← matchSteps ctx secret code lastStep steps
    pure (if shown = code ∧ lastStep.all (fun last => (last : ℤ) < step) then some step else later)

/-- The step this code was shown at — the current one, or one either side. -/
def matchStep (ctx : Context) (secret : List Byte) (code : Str) (now : Time) (lastStep : Option ℕ) :
    Except Failure (Option ℕ) :=
  if isSixDigits code then do
    let current : ℤ := stepAt now
    let matched ← matchSteps ctx secret code lastStep [current - 1, current, current + 1]
    pure (matched.map Int.toNat)
  else pure none

/-! ## The factor -/

/-- Whether a factor is asked for at sign-in. -/
def isActive (factor : Option SecondFactorRecord) : Bool := factor.any (·.confirmedAt.isSome)

/-- The configuration, or a wiring refusal. -/
def requireSettings (ctx : Context) (where_ why : Str) : Except Failure SecondFactorSettings :=
  match ctx.config.secondFactor with
  | some configured => pure configured
  | none => throw <| .typeError <|
    where_ ++ js ": " ++ why ++
      js ", and janus() was given no secondFactor — pass secondFactor: \x7b issuer, keys \x7d"

/-- The factor as it is to be written once its code is accepted: nothing for one that does not
match, or was already used. -/
def acceptCode (ctx : Context) (configured : SecondFactorSettings) (record : UserRecord)
    (factor : SecondFactorRecord) (code : Str) (now : Time) (where_ : Str) :
    Flow (Option SecondFactorRecord) := do
  let (plain, keyId) ← Prog.done (unseal_ ctx configured.sealer factor.secret record.id where_)
  let secret ← Prog.done (fromBase32 plain)
  match ← Prog.done (matchStep ctx secret code now factor.lastStep) with
  | none => pure none
  | some step => do
    let secret ← (if keyId = configured.sealer.sealWith then pure factor.secret
      else seal_ ctx configured.sealer plain record.id)
    pure (some { factor with lastStep := step, secret := secret })

/-! ## Recovery codes -/

/-- What a recovery code's units may be: digits and lower-case letters, without `i`, `l`, `o` and
`u`. -/
def isRecoveryUnit (u : CodeUnit) : Bool :=
  isDigit u || 97 ≤ u.val && u.val ≤ 122 && u ≠ 105 && u ≠ 108 && u ≠ 111 && u ≠ 117

/-- A code as typed, read as the one it could be. -/
def readRecoveryCode (ctx : Context) (typed : Str) : Option Str :=
  let code := ((ctx.runtime.toLowerCase typed).filter fun u => !isSpace u && u ≠ 45).map fun u =>
    if u = 111 then 48 else if u = 105 ∨ u = 108 then 49 else u
  if matchesAll (List.replicate 10 isRecoveryUnit) code then some code else none

/-- What the key is derived for. -/
def recoveryPurpose : Str := js "janus/second-factor/recovery-codes/v1"

/-- Whether one stored hash is the code's. -/
def recoveryHashMatches (ctx : Context) (sealer : Sealer) (userId hash : Str) (code : Option Str)
    (where_ : Str) : Except Failure Bool :=
  match hash.splitOn 46 with
  | [version, keyId, body] =>
    if version ≠ js "v1" then notKeyed
    else
      match derivedKey ctx sealer recoveryPurpose keyId with
      | none => throw <| .typeError <|
        where_ ++ js ": a recovery code is hashed with the key \"" ++ keyId ++
          js "\", which secondFactor.keys no longer holds — keep a key until no secret or recovery " ++
          js "code uses it"
      | some key => pure <| code.any fun code =>
        ctx.runtime.fromBase64url body = keyedHash ctx key [userId, code]
  | _ => notKeyed
where
  notKeyed : Except Failure Bool :=
    throw <| .typeError <| where_ ++ js ": a stored recovery code is not a keyed hash"

/-- Where `typed` is among the user's hashes: every one is compared. -/
def findRecoveryCode (ctx : Context) (sealer : Sealer) (userId : Str) (hashes : List Str)
    (typed where_ : Str) : Except Failure (Option ℕ) := do
  let matched ← hashes.mapM fun hash =>
    recoveryHashMatches ctx sealer userId hash (readRecoveryCode ctx typed) where_
  pure (matched.idxOf? true)

end Janus.Auth
