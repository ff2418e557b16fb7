import Janus.Auth.Context

/-!
# Auth/OneTime — what every one-time token shares

Issuing one, spending it, refusing one that cannot be used, and the attempts at the code it carries.
-/

namespace Janus.Auth

open Js Calls

/-! ## Issuing -/

structure OneTimeRequest where
  kind : TokenKind
  userId : Str
  address : Str
  ttlMs : ℕ
  secret : Option Str := none

/-- A code's hash, keyed by its challenge. -/
def hashCode (ctx : Context) (challenge code : Str) : Str := hashSecret ctx (challenge ++ code)

/-- A token stored, and its secret given back once. -/
def insertOneTime (ctx : Context) (token : OneTimeRequest) (code boundHash : Option Str) :
    Flow (Str × Time) := do
  let now ← call .now
  let secret ← token.secret.elim (mintSecret ctx) pure
  let expiresAt := now + token.ttlMs
  call <| .insertToken
    { tokenHash := hashSecret ctx secret
      kind := token.kind
      userId := token.userId
      address := token.address
      codeHash := match code with
        | none => boundHash
        | some code => some (hashCode ctx secret code)
      attempts := 0
      expiresAt := expiresAt
      spentAt := none
      createdAt := now }
  pure (secret, expiresAt)

/-- Issues a one-time token: random bytes, and only their hash stored. -/
def issueOneTime (ctx : Context) (token : OneTimeRequest) (boundHash : Option Str := none) :
    Flow (Str × Time) := insertOneTime ctx token none boundHash

/-! ## Refusals -/

/-- What the messages call a token. -/
inductive OneTimeNoun where
  | token
  | challenge
  | code
deriving DecidableEq

def OneTimeNoun.text : OneTimeNoun → Str
  | .token => js "token"
  | .challenge => js "challenge"
  | .code => js "code"

/-- Refuses a token sent to an e-mail the user no longer has. -/
def refuseStale (ctx : Context) (type : ResolvedType) (user : UserRecord) (token : TokenRecord)
    (where_ : Str) (noun : OneTimeNoun) : Except Failure Unit :=
  if (emailOf type user).map (normalizeEmail ctx) = some (normalizeEmail ctx token.address) then
    pure ()
  else throw <| .janus .tokenStale
    (where_ ++ js ": the " ++ noun.text ++ js " was sent to an e-mail the user no longer has")
    { operation := where_, userId := user.id, userType := type.name }

/-- The refusal for a token whose user is gone, or of another type. -/
def unknownOneTime (where_ : Str) (noun : OneTimeNoun) : Failure :=
  .janus .tokenUnknown (where_ ++ js ": no such " ++ noun.text) { operation := where_ }

/-- Refuses a token that cannot be used: none, spent, or lapsed. -/
def refuseUnusable (token : Option TokenRecord) (now : Time) (where_ : Str) (noun : OneTimeNoun) :
    Except Failure TokenRecord :=
  match token with
  | none => throw (unknownOneTime where_ noun)
  | some token =>
    if token.spentAt ≠ none then
      throw <| .janus .tokenSpent (where_ ++ js ": the " ++ noun.text ++ js " was already used")
        { operation := where_ }
    else if token.expiresAt ≤ now then
      throw <| .janus .tokenExpired (where_ ++ js ": the " ++ noun.text ++ js " has expired")
        { operation := where_ }
    else pure token

/-- A token not refused is there, and unspent. -/
theorem unspent_of_refuseUnusable {token : Option TokenRecord} {now : Time} {where_ : Str}
    {noun : OneTimeNoun} {t : TokenRecord} (h : refuseUnusable token now where_ noun = .ok t) :
    token = some t ∧ t.spentAt = none := by
  unfold refuseUnusable at h
  split at h
  case h_1 => cases h
  case h_2 t' =>
    split at h
    case isTrue => cases h
    case isFalse hspent =>
      split at h
      case isTrue => cases h
      case isFalse =>
        cases h
        exact ⟨rfl, not_not.mp hspent⟩

/-! ## Spending -/

/-- Spends a token, and refuses it when this call did not. -/
def spendOneTime (ctx : Context) (secret : Str) (kind : TokenKind) (where_ : Str)
    (noun : OneTimeNoun) : Flow TokenRecord := do
  let now ← call .now
  let token ← call (.consumeToken (hashSecret ctx secret) kind now)
  Prog.done (refuseUnusable token now where_ noun)

/-- Spends a token whose last attempt failed: its answer is not read. -/
def burnOneTime (ctx : Context) (secret : Str) (kind : TokenKind) : Flow Unit := do
  let now ← call .now
  let _ ← call (.consumeToken (hashSecret ctx secret) kind now)
  pure ()

/-! ## Codes -/

/-- How many codes one challenge takes. -/
def codeAttempts : ℕ := 5

def codeInvalid (where_ userId userType : Str) (attemptsLeft : Option ℕ) : Failure :=
  .janus .codeInvalid (where_ ++ js ": the code does not match, or was already used")
    { operation := where_, userId := userId, userType := userType, attemptsLeft := attemptsLeft }

/-- Counts one attempt at a challenge's code, before anything is compared. -/
def countCodeAttempt (ctx : Context) (secret : Str) (kind : TokenKind) (where_ userType : Str) :
    Flow (TokenRecord × ℕ) := do
  let token ← call (.countAttempt (hashSecret ctx secret) kind)
  let now ← call .now
  let token ← Prog.done (refuseUnusable token now where_ .challenge)
  if codeAttempts < token.attempts then
    Prog.fail (codeInvalid where_ token.userId userType (some 0))
  else pure (token, codeAttempts - token.attempts)

/-- The refusal for a challenge whose user is gone: the last attempt spends it. -/
def unknownChallenge (ctx : Context) (token : TokenRecord) (secret where_ : Str) :
    Flow Failure := do
  let _ ← (if token.attempts = codeAttempts then burnOneTime ctx secret token.kind else pure ())
  pure (unknownOneTime where_ .challenge)

/-- Six digits. -/
def isSixDigits (code : Str) : Bool := matchesAll (List.replicate 6 isDigit) code

/-- Whether `code` is the one whose hash the token holds. -/
def codeMatches (ctx : Context) (token : TokenRecord) (challenge code : Str) : Bool :=
  isSixDigits code && token.codeHash = some (hashCode ctx challenge code)

end Janus.Auth
