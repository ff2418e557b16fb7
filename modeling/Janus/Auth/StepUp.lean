import Janus.Auth.Redeem

/-!
# Auth/StepUp — proving again who one is, on the session one has

The attempt counted, then the session and the user read, the code checked — e-mailed, or from the
app — the challenge spent, and the session stamped as freshly confirmed.  The app's code is counted
twice: against the challenge, and per user and window.
-/

namespace Janus.Auth

open Js Insertion Calls

/-! ## The attempts at an app's code -/

/-- How long the attempts of one window last: fifteen minutes. -/
def appCodeWindowMs : ℕ := 900000

/-- What the key is derived for. -/
def appCodePurpose : Str := js "janus/second-factor/regenerate-attempts/v1"

/-- The key a sealer's first key lends `purpose`: it is always held. -/
def firstKey (ctx : Context) (sealer : Sealer) (purpose : Str) : List Byte :=
  ctx.runtime.hkdfSha256 ((get sealer.keys sealer.sealWith).get sealer.sealWith_held) purpose

/-- The hash of a link: the window and the last step accepted name the count it is of. -/
def appCodeLink (ctx : Context) (sealer : Sealer) (record : UserRecord) (window link : ℕ) : Str :=
  let lastStep := record.secondFactor.bind (·.lastStep)
  hashSecret ctx (keyed ctx (firstKey ctx sealer appCodePurpose)
    [record.id, decimal window, lastStep.elim [] decimal, decimal link])

theorem appCodeLink_injective (ctx : Context) (sealer : Sealer) (record : UserRecord) (window : ℕ) :
    Function.Injective (appCodeLink ctx sealer record window) := by
  intro link link' h
  have h := keyed_inj (ctx.runtime.sha256_injective h)
  simp only [List.intercalate, List.intersperse, List.flatten_cons, List.flatten_nil,
    List.append_nil, List.append_cancel_left_eq] at h
  exact decimal_injective h

/-- The window they are counted in: a password written between guesses buys none. -/
def appCodeWindow (ctx : Context) (sealer : Sealer) (record : UserRecord) (where_ : Str) :
    AttemptWindow where
  windowMs := appCodeWindowMs
  spent := .carry
  userId := record.id
  linkHash := appCodeLink ctx sealer record
  vanished := .janus .versionConflict
    (where_ ++ js ": the user changed while the code was checked — read it again and retry")
    { userId := record.id, expectedVersion := record.version, operation := where_ }
  linkHash_injective := appCodeLink_injective ctx sealer record

/-- The refusal past the last attempt: the right code included. -/
def tooManyCodes (record : UserRecord) (where_ : Str) : Failure :=
  .janus .codeInvalid
    (where_ ++ js ": too many codes tried — wait for the next " ++ decimal (appCodeWindowMs / 60000) ++
      js "-minute window")
    { operation := where_, userId := record.id, userType := record.type, attemptsLeft := some 0 }

/-- Counts one attempt at the app's code, before it is compared, and answers how many are left. -/
def countAppCodeAttempt (ctx : Context) (sealer : Sealer) (record : UserRecord) (where_ : Str) :
    Flow ℕ := do
  let count ← countInWindow (appCodeWindow ctx sealer record where_)
  match count.attempts.filter (· ≤ codeAttempts) with
  | some attempts => pure (codeAttempts - attempts)
  | none => Prog.fail (tooManyCodes record where_)

/-! ## What confirming takes -/

/-- The standing session a request presents: none for no token, or a session gone, revoked or
lapsed. -/
def standingSession (ctx : Context) (presented : Option Str) : Flow (Option SessionRecord) :=
  match presented with
  | none => pure none
  | some token => do
    let session ← call (.findSessionByTokenHash (hashSecret ctx token))
    let now ← call .now
    pure (session.filter fun session => session.revokedAt = none ∧ now < session.expiresAt)

/-- The user a step-up confirms for, standing: an inactive one spends the challenge. -/
def stepUpUser (ctx : Context) (type : ResolvedType) (token : TokenRecord) (secret where_ : Str) :
    Flow UserRecord := do
  match ← findRecord token.userId type.name with
  | none => do
    let unknown ← unknownChallenge ctx token secret where_
    Prog.fail unknown
  | some user =>
    if !user.active then do
      let _ ← spendOneTime ctx secret .stepUp where_ .challenge
      Prog.fail <| .janus .userInactive (where_ ++ js ": the user is inactive")
        { userId := user.id, userType := type.name }
    else pure user

/-- Reads the session the request presents, and the user the challenge is for. -/
def openStepUp (ctx : Context) (type : ResolvedType) (presented : Option Str) (token : TokenRecord)
    (secret where_ : Str) : Flow (SessionRecord × UserRecord) := do
  match ← (do return (← standingSession ctx presented).filter (·.userId = token.userId)) with
  | none => do
    let unknown ← unknownChallenge ctx token secret where_
    Prog.fail unknown
  | some session => do
    let user ← stepUpUser ctx type token secret where_
    pure (session, user)

/-! ## The two codes -/

/-- A challenge counted: the token as counted, its secret, and what is left of its attempts. -/
structure CountedStepUp where
  token : TokenRecord
  secret : Str
  attemptsLeft : ℕ

/-- A code that does not match: on the last attempt, the challenge is spent. -/
def refuseStepUp {α : Type} (ctx : Context) (type : ResolvedType) (user : UserRecord)
    (counted : CountedStepUp) (attemptsLeft : ℕ) (where_ : Str) : Flow α := do
  let _ ← (if counted.attemptsLeft = 0 then burnOneTime ctx counted.secret .stepUp else pure ())
  Prog.fail (codeInvalid where_ user.id type.name (some attemptsLeft))

/-- Checks the e-mailed code. -/
def checkEmailedCode (ctx : Context) (type : ResolvedType) (user : UserRecord)
    (counted : CountedStepUp) (code where_ : Str) : Flow Unit :=
  if isActive user.secondFactor then do
    let _ ← spendOneTime ctx counted.secret .stepUp where_ .challenge
    Prog.fail <| .janus .secondFactorActive
      (where_ ++ js ": the user's second factor became active since the code was sent — request a " ++
        js "step-up again")
      { operation := where_, userId := user.id, userType := type.name }
  else if codeMatches ctx counted.token counted.secret code then do
    let _ ← spendOneTime ctx counted.secret .stepUp where_ .challenge
    Prog.done (refuseStale ctx type user counted.token where_ .code)
  else refuseStepUp ctx type user counted counted.attemptsLeft where_

/-- Checks a code from the user's app: counted per window too, and the code accepted is written. -/
def checkAppCode (ctx : Context) (type : ResolvedType) (user : UserRecord) (counted : CountedStepUp)
    (code where_ : Str) : Flow Unit :=
  match user.secondFactor.filter (·.confirmedAt.isSome) with
  | none => do
    let _ ← spendOneTime ctx counted.secret .stepUp where_ .challenge
    Prog.fail <| .janus .secondFactorNotEnrolled
      (where_ ++ js ": the user no longer has a second factor — request a step-up again")
      { operation := where_, userId := user.id, userType := type.name }
  | some factor => do
    let configured ← Prog.done
      (requireSettings ctx where_ (js "the user's second factor is active"))
    let windowLeft ← countAppCodeAttempt ctx configured.sealer user where_
    let now ← call .now
    match ← acceptCode ctx configured user factor code now where_ with
    | none => refuseStepUp ctx type user counted (min counted.attemptsLeft windowLeft) where_
    | some accepted => do
      let _ ← updateUser user.id { secondFactor := some (some accepted), updatedAt := now }
        user.version
      let _ ← spendOneTime ctx counted.secret .stepUp where_ .challenge
      pure ()

/-- The code of the challenge: the app's for one with no code of its own. -/
def checkStepUp (ctx : Context) (type : ResolvedType) (user : UserRecord) (counted : CountedStepUp)
    (code where_ : Str) : Flow Unit :=
  if counted.token.codeHash = none then checkAppCode ctx type user counted code where_
  else checkEmailedCode ctx type user counted code where_

/-- The refusal for a session revoked while the code was checked. -/
def signedOut (where_ : Str) : Failure :=
  .janus .tokenUnknown (where_ ++ js ": the session was signed out while the code was checked")
    { operation := where_ }

/-- `stepUp.confirm`, of the session whose token the request presents. -/
def confirmStepUp (ctx : Context) (type : ResolvedType) (presented : Option Str) (secret code : Str)
    (at_ : At) : Flow SessionRecord := do
  let where_ := at_ (js "stepUp.confirm")
  let (token, attemptsLeft) ← countCodeAttempt ctx secret .stepUp where_ type.name
  let (session, user) ← openStepUp ctx type presented token secret where_
  checkStepUp ctx type user ⟨token, secret, attemptsLeft⟩ code where_
  let now ← call .now
  match ← call (.reauthenticateSession session.id now) with
  | some confirmed => pure confirmed
  -- Revoked while the code was checked: signed out, and never brought back.
  | none => Prog.fail (signedOut where_)

end Janus.Auth
