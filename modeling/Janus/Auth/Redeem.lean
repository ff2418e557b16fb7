import Janus.Auth.SignIn

/-!
# Auth/Redeem — the challenge of a sign-in, redeemed with a code

Counted first, then refused for a user gone, inactive or without a factor any more, then the code
compared — and the factor written under the version read before the session opens.
-/

namespace Janus.Auth

open Js Calls

/-- A challenge counted, and the user it waits for, whose factor is active. -/
structure OpenedChallenge where
  configured : SecondFactorSettings
  secret : Str
  attemptsLeft : ℕ
  record : UserRecord
  factor : SecondFactorRecord

/-- Spends a second-factor challenge, refusing it when this call did not. -/
def spendChallenge (ctx : Context) (challenge where_ : Str) : Flow TokenRecord :=
  spendOneTime ctx challenge .secondFactor where_ .challenge

/-- The user of a challenge counted: refused when inactive, or whose factor was disabled since. -/
def activeFactor (ctx : Context) (type : ResolvedType) (record : UserRecord) (secret where_ : Str) :
    Flow SecondFactorRecord :=
  if !record.active then do
    let _ ← spendChallenge ctx secret where_
    Prog.fail <| .janus .userInactive (where_ ++ js ": the user is inactive")
      { userId := record.id, userType := type.name }
  else
    match record.secondFactor.filter (·.confirmedAt.isSome) with
    | some factor => pure factor
    | none => do
      let _ ← spendChallenge ctx secret where_
      Prog.fail <| .janus .secondFactorNotEnrolled
        (where_ ++ js ": the user no longer has a second factor — sign in again")
        { operation := where_, userId := record.id, userType := type.name }

/-- Counts one attempt at the challenge, then reads its user. -/
def openChallenge (ctx : Context) (type : ResolvedType) (challenge where_ : Str) :
    Flow OpenedChallenge := do
  let configured ← Prog.done (requireSettings ctx where_ (js "a second factor is being confirmed"))
  let (token, attemptsLeft) ← countCodeAttempt ctx challenge .secondFactor where_ type.name
  match ← findRecord token.userId type.name with
  | none => do
    let unknown ← unknownChallenge ctx token challenge where_
    Prog.fail unknown
  | some record => do
    let factor ← activeFactor ctx type record challenge where_
    pure { configured, secret := challenge, attemptsLeft, record, factor }

/-- A code that does not match: on the last attempt, the challenge is spent. -/
def refuseCode {α : Type} (ctx : Context) (type : ResolvedType) (opened : OpenedChallenge)
    (where_ : Str) : Flow α := do
  let _ ← (if opened.attemptsLeft = 0 then burnOneTime ctx opened.secret .secondFactor else pure ())
  Prog.fail (codeInvalid where_ opened.record.id type.name (some opened.attemptsLeft))

/-- What both redemptions end with, once the factor is written: the challenge spent, the login's
count started again, a session opened. -/
def completeSignIn (ctx : Context) (type : ResolvedType) (secret : Str) (written : UserRecord)
    (where_ : Str) : Flow SignInResult := do
  let _ ← spendChallenge ctx secret where_
  restartSignInCount ctx type written where_
  openSession ctx type written

/-- Redeems a challenge with its code. -/
def confirmChallenge (ctx : Context) (type : ResolvedType) (challenge code : Str) (at_ : At) :
    Flow SignInResult := do
  let where_ := at_ (js "secondFactor.confirm")
  let opened ← openChallenge ctx type challenge where_
  let now ← call .now
  match ← acceptCode ctx opened.configured opened.record opened.factor code now where_ with
  | none => refuseCode ctx type opened where_
  | some accepted => do
    let written ← updateUser opened.record.id
      { secondFactor := some (some accepted), updatedAt := now } opened.record.version
    completeSignIn ctx type opened.secret written where_

/-- A sign-in with a recovery code, and how many are left. -/
structure RecoveredSignIn where
  signedIn : SignInResult
  recoveryCodesLeft : ℕ

/-- Redeems a challenge with a recovery code: its hash is dropped from the factor in one write. -/
def recoverWithCode (ctx : Context) (type : ResolvedType) (challenge code : Str) (at_ : At) :
    Flow RecoveredSignIn := do
  let where_ := at_ (js "secondFactor.recover")
  let opened ← openChallenge ctx type challenge where_
  match ← Prog.done (findRecoveryCode ctx opened.configured.sealer opened.record.id
    opened.factor.recoveryCodes code where_) with
  | none => refuseCode ctx type opened where_
  | some found => do
    let recoveryCodes := opened.factor.recoveryCodes.eraseIdx found
    let now ← call .now
    let written ← updateUser opened.record.id
      { secondFactor := some (some { opened.factor with recoveryCodes := recoveryCodes }),
        updatedAt := now } opened.record.version
    -- The code is spent once written: the event reports it whatever follows.
    let signedIn ← (completeSignIn ctx type opened.secret written where_).ensure
      (emit ctx .recoveryCodeUsed written written.updatedAt)
    pure ⟨signedIn, recoveryCodes.length⟩

end Janus.Auth
