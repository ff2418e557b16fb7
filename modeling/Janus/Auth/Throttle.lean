import Janus.Auth.Context
import Janus.Auth.Window

/-!
# Auth/Throttle — the passwords tried at one login

Counted per login in a `restart` window, before anything is looked up or compared; a sign-in that
opens a session spends the link it counts on, and the login's count starts again.
-/

namespace Janus.Auth

open Js Insertion Calls

/-! ## Keys -/

/-- The key `keyId` lends `purpose`, when the sealer holds it. -/
def derivedKey (ctx : Context) (sealer : Sealer) (purpose keyId : Str) : Option (List Byte) :=
  (get sealer.keys keyId).map fun secret => ctx.runtime.hkdfSha256 secret purpose

/-- HMAC-SHA256 of `parts`, joined by a NUL. -/
def keyedHash (ctx : Context) (key : List Byte) (parts : List Str) : List Byte :=
  ctx.runtime.hmacSha256 key ([(0 : CodeUnit)].intercalate parts)

/-- The key `purpose` names its counts with. -/
def counterKey (ctx : Context) (purpose : Str) : List Byte :=
  match ctx.config.secondFactor with
  | none => bytesOf purpose
  | some configured =>
    let sealer := configured.sealer
    ctx.runtime.hkdfSha256 ((get sealer.keys sealer.sealWith).get sealer.sealWith_held) purpose

/-- A keyed hash of `parts`: a name, never a secret. -/
def keyed (ctx : Context) (key : List Byte) (parts : List Str) : Str :=
  ctx.runtime.toBase64url (keyedHash ctx key parts)

/-- A keyed hash names its parts' text. -/
theorem keyed_inj {ctx : Context} {key : List Byte} {parts parts' : List Str}
    (h : keyed ctx key parts = keyed ctx key parts') :
    [(0 : CodeUnit)].intercalate parts = [(0 : CodeUnit)].intercalate parts' :=
  ctx.runtime.keyed_injective key h

/-! ## Counting -/

/-- What the key is derived for. -/
def attemptsPurpose : Str := js "janus/sign-in/attempts/v1"

/-- The name a login's links are stored under. -/
def loginKey (ctx : Context) (type : ResolvedType) (login : Str) : Str :=
  keyed ctx (counterKey ctx attemptsPurpose) [type.name, login]

/-- The hash of a login's link in one window. -/
def loginLink (ctx : Context) (type : ResolvedType) (login : Str) (window link : ℕ) : Str :=
  hashSecret ctx (keyed ctx (counterKey ctx attemptsPurpose)
    [loginKey ctx type login, decimal window, decimal link])

theorem loginLink_injective (ctx : Context) (type : ResolvedType) (login : Str) (window : ℕ) :
    Function.Injective (loginLink ctx type login window) := by
  intro link link' h
  have h := keyed_inj (ctx.runtime.sha256_injective h)
  simp only [List.intercalate, List.intersperse, List.flatten_cons, List.flatten_nil,
    List.append_nil, List.append_cancel_left_eq] at h
  exact decimal_injective h

/-- The window a login is counted in. -/
def loginWindow (ctx : Context) (throttle : Throttle) (type : ResolvedType) (login where_ : Str) :
    AttemptWindow where
  windowMs := throttle.windowMs
  spent := .restart
  userId := loginKey ctx type login
  linkHash := loginLink ctx type login
  vanished := .janus .storeFailed
    (where_ ++ js ": the store dropped the attempts it had just stored")
    { slot := js "tokens", operation := js "countAttempt" }
  linkHash_injective := loginLink_injective ctx type login

/-- One attempt counted at `login`, or nothing with the throttle off. -/
def countLogin (ctx : Context) (type : ResolvedType) (login where_ : Str) :
    Flow (Option CountedAttempt) :=
  match ctx.config.signInThrottle with
  | none => pure none
  | some throttle => some <$> countInWindow (loginWindow ctx throttle type login where_)

/-- The refusal past the last attempt. -/
def throttled (type : ResolvedType) (counted : CountedAttempt) (now : Time) (where_ : Str) :
    Failure :=
  .janus .credentialsInvalid
    (where_ ++ js ": too many passwords tried at this login — wait for the next window")
    { reason := some .throttled, userType := type.name,
      retryAfter := some (max 1 ((counted.endsAt - now + 999) / 1000)) }

/-- Counts one password tried at `login`, and refuses past the last one: the right one included. -/
def countSignInAttempt (ctx : Context) (type : ResolvedType) (login where_ : Str) : Flow Unit := do
  let counted ← countLogin ctx type login where_
  match counted, ctx.config.signInThrottle with
  | some counted, some throttle =>
    if counted.attempts.any (· ≤ throttle.attempts) then pure ()
    else do
      let now ← call .now
      Prog.fail (throttled type counted now where_)
  | _, _ => pure ()

/-- What a user signs in with by password, normalised. -/
def loginOf (type : ResolvedType) (record : UserRecord) : Option Str :=
  type.password.bind fun rule => ((record.field rule.login).asString).map rule.normalize

/-- Starts the user's count again: one attempt on the current link, and the link spent. -/
def restartSignInCount (ctx : Context) (type : ResolvedType) (record : UserRecord) (where_ : Str) :
    Flow Unit :=
  match loginOf type record with
  | none => pure ()
  | some login => do
    let counted ← countLogin ctx type login where_
    match counted.bind (·.link) with
    | none => pure ()
    | some link => do
      let now ← call .now
      let _ ← call (.consumeToken link .secondFactor now)
      pure ()

end Janus.Auth
