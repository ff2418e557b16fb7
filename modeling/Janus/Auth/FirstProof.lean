import Janus.Auth.Password

/-!
# Auth/FirstProof — the first proof of an e-mail

The address reached an inbox nobody had proved before: the write that proves it drops the password
and the second factor set before, and every session is revoked and every challenge spent, both
before the write and after it.  Four flows prove an e-mail so.
-/

namespace Janus.Auth

open Js Calls

/-- Every session of the user revoked, and what their password opened spent. -/
def endWhatTheSquatterOpened (userId : Str) : Flow Unit := do
  let now ← call .now
  let _ ← call (.revokeUserSessions userId now none)
  endWhatThePasswordOpened userId

/-- What the proof dropped. -/
structure Dropped where
  password : Bool
  factor : Bool

/-- The events of a first proof. -/
def emitProof (ctx : Context) (proved : UserRecord) (dropped : Dropped) : Flow Unit := do
  emit ctx .emailVerified proved proved.updatedAt
  let _ ← (if dropped.password then
    emit ctx (.passwordChanged false) proved proved.updatedAt else pure ())
  if dropped.factor then emit ctx .secondFactorDisabled proved proved.updatedAt else pure ()

/-- Proves `user`'s e-mail, never proved before, under the version read. -/
def proveFirstEmail (ctx : Context) (type : ResolvedType) (user : UserRecord) (where_ : Str) :
    Flow UserRecord := do
  endWhatTheSquatterOpened user.id
  let (proved, dropped) ← writeUser user.id type (some user.version) where_ fun record now =>
    pure ({ emailVerifiedAt := some (some now)
            password := if record.password.isSome then some none else none
            secondFactor := if record.secondFactor.isSome then some none else none },
      (⟨record.password.isSome, isActive record.secondFactor⟩ : Dropped))
  (endWhatTheSquatterOpened proved.id).ensure (emitProof ctx proved dropped)
  pure proved

/-! ## By a link or a code -/

/-- Ends a sign-in by e-mail whose token is spent. -/
def finishEmailSignIn (ctx : Context) (type : ResolvedType) (user : UserRecord)
    (token : TokenRecord)
    (where_ : Str) (noun : OneTimeNoun) : Flow SignInResult := do
  Prog.done (refuseStale ctx type user token where_ noun)
  if !user.active then
    Prog.fail <| .janus .userInactive (where_ ++ js ": the user is inactive")
      { userId := user.id, userType := type.name }
  else do
    let proved ← (if user.emailVerifiedAt.isSome then pure user
      else proveFirstEmail ctx type user where_)
    finish ctx type proved where_

/-- `magicLink.confirm`. -/
def confirmLink (ctx : Context) (type : ResolvedType) (secret : Str) (at_ : At) :
    Flow SignInResult := do
  let where_ := at_ (js "magicLink.confirm")
  let (token, user, _) ← redeemEmailToken ctx type .magicLink secret where_
  finishEmailSignIn ctx type user token where_ .token

/-- `signInCode.confirm`. -/
def confirmCode (ctx : Context) (type : ResolvedType) (challenge code : Str) (at_ : At) :
    Flow SignInResult := do
  let where_ := at_ (js "signInCode.confirm")
  let (token, attemptsLeft) ← countCodeAttempt ctx challenge .signInCode where_ type.name
  match ← findRecord token.userId type.name with
  | none => do
    let unknown ← unknownChallenge ctx token challenge where_
    Prog.fail unknown
  | some user =>
    if codeMatches ctx token challenge code then do
      let _ ← spendOneTime ctx challenge .signInCode where_ .challenge
      finishEmailSignIn ctx type user token where_ .code
    else do
      let _ ← (if token.attempts = codeAttempts then burnOneTime ctx challenge .signInCode
        else pure ())
      Prog.fail (codeInvalid where_ user.id type.name (some attemptsLeft))

/-! ## By a verification -/

/-- `verifyEmail.confirm`, of one type or the root's. -/
def confirmVerify (ctx : Context) (asked : Option ResolvedType) (secret where_ : Str)
    (firstProof : Bool) : Flow User := do
  let (token, user, type) ← redeemEmailToken ctx asked .verifyEmail secret where_
  if firstProof && user.emailVerifiedAt.isNone then
    toUser <$> proveFirstEmail ctx type user where_
  else do
    let (written, newlyVerified) ← writeUser user.id type none where_ fun record now => do
      Prog.done (refuseStale ctx type record token where_ .token)
      pure ({ emailVerifiedAt := some (some now) }, record.emailVerifiedAt.isNone)
    let _ ← (if newlyVerified then emit ctx .emailVerified written written.updatedAt else pure ())
    pure (toUser written)

/-! ## By the application's own proof -/

/-- The user read by id, refused when inactive. -/
def readActive (type : ResolvedType) (id where_ : Str) : Flow UserRecord := do
  let record ← getRecord id type.name where_
  if !record.active then
    Prog.fail <| .janus .userInactive (where_ ++ js ": the user is inactive")
      { userId := record.id, userType := type.name }
  else pure record

/-- A user, and whether this call proved their e-mail. -/
structure ProvedFirst where
  user : User
  proved : Bool

/-- `proved: false` for an e-mail already proved, else the proof itself. -/
def proveOrAnswer (ctx : Context) (type : ResolvedType) (record : UserRecord) (where_ : Str) :
    Flow ProvedFirst :=
  if record.emailVerifiedAt.isSome then pure ⟨toUser record, false⟩
  else (fun proved => ⟨toUser proved, true⟩) <$> proveFirstEmail ctx type record where_

/-- The address a `User` caller holds. -/
def claimedEmail (ctx : Context) (type : ResolvedType) : UserRef → Option Str
  | .id _ => none
  | .record user _ => ((user.field type.email).asString).map (normalizeEmail ctx)

/-- `VERSION_CONFLICT` when the address read is not the one the caller holds. -/
def assertClaimed (ctx : Context) (type : ResolvedType) (claimed : Option Str) (record : UserRecord)
    (user : UserRef) (where_ : Str) : Except Failure Unit :=
  if claimed.all fun claimed => (emailOf type record).map (normalizeEmail ctx) = some claimed then
    pure ()
  else
    let held := match user with
      | .id _ => none
      | .record _ version => version
    throw <| .janus .versionConflict (where_ ++ js ": the e-mail changed since the user was read")
      { userId := record.id, expectedVersion := held, actualVersion := record.version,
        operation := where_ }

/-- Once the proof lost a race: read again, and tried once more. -/
def proveAgain (ctx : Context) (type : ResolvedType) (user : UserRef) (first : UserRecord)
    (where_ : Str) : Flow ProvedFirst := do
  let again ← readActive type (refId user) where_
  Prog.done (assertClaimed ctx type (claimedEmail ctx type user) again user where_)
  if (emailOf type first).map (normalizeEmail ctx) =
    (emailOf type again).map (normalizeEmail ctx) then
    proveOrAnswer ctx type again where_
  else
    Prog.fail <| .janus .versionConflict (where_ ++ js ": the e-mail changed since it was read")
      { userId := first.id, expectedVersion := first.version, actualVersion := again.version,
        operation := where_ }

/-- `verifyEmail.proveFirst`. -/
def proveFirst (ctx : Context) (type : ResolvedType) (user : UserRef) (at_ : At) :
    Flow ProvedFirst := do
  let where_ := at_ (js "verifyEmail.proveFirst")
  let first ← readActive type (refId user) where_
  Prog.done (assertClaimed ctx type (claimedEmail ctx type user) first user where_)
  match ← unlessVersionConflict (proveOrAnswer ctx type first where_) with
  | some answer => pure answer
  | none => proveAgain ctx type user first where_

end Janus.Auth
