import Janus.Auth.Factor

/-!
# Auth/SignIn — signing in with a password

The password is compared, then a session opened or, with an active second factor, a challenge
issued; then the user is read again: a password written meanwhile ends what was just opened.
-/

namespace Janus.Auth

open Js Calls

/-! ## What a sign-in answers -/

/-- A user as application code sees it. -/
structure User where
  fields : List (Str × Value)
  id : Str
  type : Str
  emailVerified : Bool
  active : Bool
  hasPassword : Bool
  hasSecondFactor : Bool
  avatar : Option AvatarRecord
  version : ℕ
  updatedAt : Time

def toUser (record : UserRecord) : User where
  fields := record.fields
  id := record.id
  type := record.type
  emailVerified := record.emailVerifiedAt.isSome
  active := record.active
  hasPassword := record.password.isSome
  hasSecondFactor := isActive record.secondFactor
  avatar := record.avatar
  version := record.version
  updatedAt := record.updatedAt

/-- A session opened, its token given once, or a challenge waiting for a code. -/
inductive SignInResult where
  | signedIn (user : User) (session : SessionRecord) (token : Str)
  | secondFactor (challenge : Str) (expiresAt : Time) (userId : Str)

/-- Opens a session for a user who just proved who they are. -/
def openSession (ctx : Context) (type : ResolvedType) (user : UserRecord) : Flow SignInResult := do
  let now ← call .now
  let token ← mintSecret ctx
  let id ← mintId ctx now
  let record : SessionRecord :=
    { id := id
      tokenHash := hashSecret ctx token
      userId := user.id
      authenticatedAt := now
      expiresAt := now + type.lifespanMs
      revokedAt := none
      createdAt := now }
  call (.insertSession record)
  pure (.signedIn (toUser user) record token)

/-- The challenge answered instead of a session. -/
def issueChallenge (ctx : Context) (record : UserRecord) (where_ : Str) : Flow SignInResult := do
  let configured ← Prog.done
    (requireSettings ctx where_ (js "the user's second factor is active"))
  let (secret, expiresAt) ← issueOneTime ctx
    { kind := .secondFactor, userId := record.id, address := [],
      ttlMs := configured.challengeTtlMs }
  pure (.secondFactor secret expiresAt record.id)

/-- What a sign-in answers once the user proved who they are. -/
def finish (ctx : Context) (type : ResolvedType) (record : UserRecord) (where_ : Str) :
    Flow SignInResult :=
  if isActive record.secondFactor then issueChallenge ctx record where_
  else openSession ctx type record

/-! ## A password written meanwhile -/

/-- Whether the password verified is still the one stored. -/
def stillHeld (ctx : Context) (verified : UserRecord) (password where_ : Str) :
    Option UserRecord → Except Failure Bool
  | none => pure false
  | some now =>
    match now.password with
    | none => pure false
    | some stored =>
      if some stored.hash = verified.password.map (·.hash) then pure true
      else passwordMatches ctx now password where_

/-- Ends what a sign-in opened. -/
def endOpened (ctx : Context) : SignInResult → Flow Unit
  | .signedIn _ session _ => do
    let now ← call .now
    let _ ← call (.revokeSession session.id now)
    pure ()
  | .secondFactor challenge _ _ => burnOneTime ctx challenge .secondFactor

/-- Whether the password a sign-in verified is still the user's, once the sign-in answered: its
session is revoked, or its challenge spent, when it is not. -/
def heldByPassword (ctx : Context) (type : ResolvedType) (verified : UserRecord)
    (password : Str) (result : SignInResult) (where_ : Str) : Flow Bool := do
  let now ← findRecord verified.id type.name
  if ← Prog.done (stillHeld ctx verified password where_ now) then pure true
  else do
    endOpened ctx result
    pure false

/-! ## Signing in -/

/-- One refusal for an unknown login, no password and a wrong one. -/
def credentialsRefused (type : ResolvedType) (where_ : Str) (reason : CredentialRefusal) :
    Failure :=
  .janus .credentialsInvalid (where_ ++ js ": the login and the password do not match")
    { reason := reason, userType := type.name }

/-- What is refused only once the password matched. -/
def refuseAfterPassword (type : ResolvedType) (record : UserRecord) (where_ : Str) :
    Except Failure Unit :=
  if !record.active then
    throw <| .janus .userInactive (where_ ++ js ": the user is inactive")
      { userId := record.id, userType := type.name }
  else if type.password.all (!·.requireVerifiedEmail) then pure ()
  else if (emailOf type record).isNone then
    throw <| .typeError <|
      where_ ++ js ": password.requireVerifiedEmail needs an e-mail on the " ++ type.name ++
        js " type — its schema has no required string \"" ++ type.email ++ js "\" field"
  else if record.emailVerifiedAt.isNone then
    throw <| .janus .emailUnverified (where_ ++ js ": the e-mail is not verified")
      { userId := record.id, userType := type.name }
  else pure ()

/-- What follows once the password matched the record read. -/
def signInVerified (ctx : Context) (type : ResolvedType) (record : UserRecord)
    (password where_ : Str) : Flow SignInResult := do
  Prog.done (refuseAfterPassword type record where_)
  let _ ← (if isActive record.secondFactor then pure ()
    else restartSignInCount ctx type record where_)
  let verified ← rehashed ctx record password
  let result ← finish ctx type verified where_
  if ← heldByPassword ctx type verified password result where_ then pure result
  else Prog.fail (credentialsRefused type where_ .wrongPassword)

/-- The record read, and its password compared: with no record, or none with a password, a dummy
hash is compared and its answer not read. -/
def signInAs (ctx : Context) (type : ResolvedType) (record : Option UserRecord)
    (password where_ : Str) : Flow SignInResult :=
  match record with
  | none => Prog.fail (credentialsRefused type where_ .unknownLogin)
  | some record =>
    if record.password.isNone then Prog.fail (credentialsRefused type where_ .noPassword)
    else do
      if ← Prog.done (passwordMatches ctx record password where_) then
        signInVerified ctx type record password where_
      else Prog.fail (credentialsRefused type where_ .wrongPassword)

/-- Checks the password and answers what `finish` answers for the user. -/
def signIn (ctx : Context) (type : ResolvedType) (input : Record) (at_ : At) :
    Flow SignInResult := do
  let where_ := at_ (js "signIn")
  let rule ← Prog.done (passwordRule type where_)
  let _ ← Prog.done (requireHasher ctx where_)
  let password := (input.field (js "password")).toText
  match ((input.field rule.login).asString).map rule.normalize with
  | none => signInAs ctx type none password where_
  | some normalized => do
    countSignInAttempt ctx type normalized where_
    let record ← byLogin type normalized
    signInAs ctx type record password where_

end Janus.Auth
