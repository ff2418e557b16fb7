import Janus.Auth.Password
import Janus.Auth.StepUp

/-!
# Auth/Enrolment — a second factor enrolled, activated, its recovery codes replaced, disabled

Each is one write that follows a read, under the version read.  A factor enrolled waits for its
first code; once active, it is replaced only after it was disabled.
-/

namespace Janus.Auth

open Js Calls

/-! ## What is minted -/

/-- A character of base32. -/
def base32Unit (index : ℕ) : CodeUnit :=
  Fin.ofNat 65536 (if index < 26 then 65 + index else 24 + index)

/-- Base32, without padding, `bits` bits of `value` still to be written: a word never cleared. -/
def writeBase32 : List Byte → (bits : ℕ) → (value : BitVec 32) → Str
  | [], bits, value => if 0 < bits then [base32Unit (value <<< (5 - bits) &&& 31).toNat] else []
  | byte :: bytes, bits, value =>
    let value := value <<< 8 ||| BitVec.ofNat 32 byte.val
    let bits := bits + 8
    (List.range (bits / 5)).map (fun i => base32Unit (value >>> (bits - 5 * (i + 1)) &&& 31).toNat) ++
      writeBase32 bytes (bits % 5) value

def toBase32 (bytes : List Byte) : Str := writeBase32 bytes 0 0

/-- A fresh secret: twenty random bytes. -/
def mintTotpSecret (ctx : Context) : Flow Str := do
  let drawn ← call .draw
  pure (toBase32 (ctx.runtime.randomBytes drawn))

/-- How many codes are answered. -/
def recoveryCodeCount : ℕ := 10

def recoveryAlphabet : Str := js "0123456789abcdefghjkmnpqrstvwxyz"

/-- So many characters, each drawn. -/
def drawUnits (ctx : Context) : ℕ → Flow Str
  | 0 => pure []
  | n + 1 => do
    let drawn ← call .draw
    let units ← drawUnits ctx n
    pure (recoveryAlphabet.getD (ctx.runtime.randomInt drawn % recoveryAlphabet.length) 48 :: units)

/-- So many codes, as the user is shown them once. -/
def mintCodes (ctx : Context) : ℕ → Flow (List Str)
  | 0 => pure []
  | n + 1 => do
    let code ← drawUnits ctx 10
    let codes ← mintCodes ctx n
    pure ((code.take 5 ++ 45 :: code.drop 5) :: codes)

def mintRecoveryCodes (ctx : Context) : Flow (List Str) := mintCodes ctx recoveryCodeCount

/-- A code's keyed hash, under the first key, bound to the user's id. -/
def hashRecoveryCode (ctx : Context) (sealer : Sealer) (userId code : Str) : Str :=
  js "v1." ++ sealer.sealWith ++ js "." ++
    keyed ctx (firstKey ctx sealer recoveryPurpose) [userId, (readRecoveryCode ctx code).getD code]

/-! ## The writes -/

/-- The refusal of a step, naming the user and its type. -/
def refusal (type : ResolvedType) (code : Code) (message where_ : Str) (record : UserRecord) :
    Failure :=
  .janus code (where_ ++ js ": " ++ message)
    { operation := where_, userId := record.id, userType := type.name }

/-- The login a user signs in with: the account name the app shows. -/
def accountOf (type : ResolvedType) (record : UserRecord) (where_ : Str) : Except Failure Str :=
  match type.password with
  | some rule => pure (record.field rule.login).toText
  | none => throw <| .typeError <|
    where_ ++ js ": the " ++ type.name ++
      js " type does not sign in with a password, so it has no second factor"

/-- The secret to show, and the account it is for. -/
structure SecondFactorEnrolment where
  secret : Str
  account : Str

/-- A factor waiting for its first code. -/
def enrolled (ctx : Context) (configured : SecondFactorSettings) (type : ResolvedType)
    (secret : Str)
    (where_ : Str) (record : UserRecord) : Flow (Patch × Unit) :=
  if isActive record.secondFactor then
    Prog.fail (refusal type .secondFactorActive
      (js "the user's second factor is active — disable it first") where_ record)
  else do
    let _ ← Prog.done (accountOf type record where_)
    let sealed ← seal_ ctx configured.sealer secret record.id
    pure ({ secondFactor := some (some ⟨sealed, none, none, []⟩) }, ())

/-- `secondFactor.enroll`. -/
def enrollFactor (ctx : Context) (type : ResolvedType) (user : UserRef) (ifVersion : Option ℕ)
    (at_ : At) : Flow SecondFactorEnrolment := do
  let where_ := at_ (js "secondFactor.enroll")
  let configured ← Prog.done (requireSettings ctx where_ (js "a second factor is being enrolled"))
  let secret ← mintTotpSecret ctx
  let (written, _) ← writeUser (idOf user) type ifVersion where_ fun record _ =>
    enrolled ctx configured type secret where_ record
  let account ← Prog.done (accountOf type written where_)
  pure ⟨secret, account⟩

/-- The user, and the codes answered once. -/
structure RecoveryCodesIssued where
  user : User
  recoveryCodes : List Str

/-- The factor waiting, once its first code is accepted. -/
def activated (ctx : Context) (configured : SecondFactorSettings) (type : ResolvedType) (code : Str)
    (recoveryCodes : List Str) (where_ : Str) (record : UserRecord) (now : Time) :
    Flow (Patch × Unit) :=
  match record.secondFactor with
  | none => Prog.fail (refusal type .secondFactorNotEnrolled
      (js "the user has no second factor waiting — call enroll first") where_ record)
  | some factor =>
    if factor.confirmedAt.isSome then
      Prog.fail (refusal type .secondFactorActive
        (js "the user's second factor is already active") where_ record)
    else do
      match ← acceptCode ctx configured record factor code now where_ with
      | none => Prog.fail (codeInvalid where_ record.id type.name none)
      | some accepted =>
        let written : SecondFactorRecord :=
          { accepted with
            confirmedAt := some now
            recoveryCodes := recoveryCodes.map (hashRecoveryCode ctx configured.sealer record.id) }
        pure ({ secondFactor := some (some written) }, ())

/-- `secondFactor.activate`. -/
def activateFactor (ctx : Context) (type : ResolvedType) (user : UserRef) (code : Str)
    (ifVersion : Option ℕ) (at_ : At) : Flow RecoveryCodesIssued := do
  let where_ := at_ (js "secondFactor.activate")
  let configured ← Prog.done (requireSettings ctx where_ (js "a second factor is being activated"))
  let recoveryCodes ← mintRecoveryCodes ctx
  let (written, _) ← writeUser (idOf user) type ifVersion where_ fun record now =>
    activated ctx configured type code recoveryCodes where_ record now
  emit ctx .secondFactorEnabled written written.updatedAt
  pure ⟨toUser written, recoveryCodes⟩

/-- The active factor with its codes replaced, once an app's code is accepted. -/
def regenerated (ctx : Context) (configured : SecondFactorSettings)
    (type : ResolvedType) (code : Str)
    (recoveryCodes : List Str) (where_ : Str) (record : UserRecord) (now : Time) :
    Flow (Patch × Unit) :=
  match record.secondFactor.filter (·.confirmedAt.isSome) with
  | none => Prog.fail (refusal type .secondFactorNotEnrolled
      (js "the user has no active second factor — recovery codes come with one") where_ record)
  | some factor => do
    let left ← countAppCodeAttempt ctx configured.sealer record where_
    match ← acceptCode ctx configured record factor code now where_ with
    | none => Prog.fail (codeInvalid where_ record.id type.name (some left))
    | some accepted =>
      let written : SecondFactorRecord :=
        { accepted with
          recoveryCodes := recoveryCodes.map (hashRecoveryCode ctx configured.sealer record.id) }
      pure ({ secondFactor := some (some written) }, ())

/-- `secondFactor.regenerateRecoveryCodes`. -/
def regenerateRecoveryCodes (ctx : Context) (type : ResolvedType) (user : UserRef) (code : Str)
    (ifVersion : Option ℕ) (at_ : At) : Flow RecoveryCodesIssued := do
  let where_ := at_ (js "secondFactor.regenerateRecoveryCodes")
  let configured ← Prog.done
    (requireSettings ctx where_ (js "recovery codes are being regenerated"))
  let recoveryCodes ← mintRecoveryCodes ctx
  let (written, _) ← writeUser (idOf user) type ifVersion where_ fun record now =>
    regenerated ctx configured type code recoveryCodes where_ record now
  emit ctx .recoveryCodesRegenerated written written.updatedAt
  pure ⟨toUser written, recoveryCodes⟩

/-- `secondFactor.disable`. -/
def disableFactor (ctx : Context) (type : ResolvedType) (user : UserRef) (ifVersion : Option ℕ)
    (at_ : At) : Flow User := do
  let (written, wasActive) ← writeUser (idOf user) type ifVersion (at_ (js "secondFactor.disable"))
    fun record _ => pure ({ secondFactor := some none }, isActive record.secondFactor)
  let _ ← (if wasActive then emit ctx .secondFactorDisabled written written.updatedAt else pure ())
  pure (toUser written)

end Janus.Auth
