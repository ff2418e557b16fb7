import Janus.Auth.Throttle

/-!
# Auth/Mail — the e-mails asked for, and who holds an address

Each flow that hands out something to e-mail is counted on its own, per address or per user, in a
`carry` window: past the last one it issues nothing.
-/

namespace Janus.Auth

open Js Insertion Calls

/-! ## Counting -/

/-- What the key is derived for. -/
def mailPurpose : Str := js "janus/mail/requests/v1"

/-- The flows that hand out something to e-mail. -/
inductive MailFlow where
  | magicLink
  | signInCode
  | resetPassword
  | verifyEmail
  | signUp
  | stepUp
  | changeEmail
deriving DecidableEq

def MailFlow.text : MailFlow → Str
  | .magicLink => js "magicLink"
  | .signInCode => js "signInCode"
  | .resetPassword => js "resetPassword"
  | .verifyEmail => js "verifyEmail"
  | .signUp => js "signUp"
  | .stepUp => js "stepUp"
  | .changeEmail => js "changeEmail"

/-- Who a request is counted for: the address it names, or the user. -/
inductive MailCounted where
  | address (address : Str) (userId : Option Str)
  | user (userId : Str)

/-- What a refusal calls them. -/
def MailCounted.noun : MailCounted → Str
  | .address _ _ => js "address"
  | .user _ => js "user"

def MailCounted.userId : MailCounted → Option Str
  | .address _ userId => userId
  | .user userId => userId

/-- The name their links are stored under. -/
def mailSubject (ctx : Context) (flow : MailFlow) : MailCounted → Str
  | .address address _ => keyed ctx (counterKey ctx mailPurpose) [flow.text, js "address", address]
  | .user userId => keyed ctx (counterKey ctx mailPurpose) [flow.text, js "user", userId]

def mailLink (ctx : Context) (subject : Str) (window link : ℕ) : Str :=
  hashSecret ctx (keyed ctx (counterKey ctx mailPurpose) [subject, decimal window, decimal link])

theorem mailLink_injective (ctx : Context) (subject : Str) (window : ℕ) :
    Function.Injective (mailLink ctx subject window) := by
  intro link link' h
  have h := keyed_inj (ctx.runtime.sha256_injective h)
  simp only [List.intercalate, List.intersperse, List.flatten_cons, List.flatten_nil,
    List.append_nil, List.append_cancel_left_eq] at h
  exact decimal_injective h

/-- The window they are counted in. -/
def mailWindow (ctx : Context) (throttle : Throttle) (flow : MailFlow) (counted : MailCounted)
    (where_ : Str) : AttemptWindow where
  windowMs := throttle.windowMs
  spent := .carry
  userId := mailSubject ctx flow counted
  linkHash := mailLink ctx (mailSubject ctx flow counted)
  vanished := .janus .storeFailed
    (where_ ++ js ": the store dropped the requests it had just counted")
    { slot := js "tokens", operation := js "countAttempt" }
  linkHash_injective := mailLink_injective ctx _

def mailThrottled (type : ResolvedType) (counted : MailCounted) (endsAt now : Time) (where_ : Str) :
    Failure :=
  .janus .mailThrottled
    (where_ ++ js ": too many e-mails asked for this " ++ counted.noun ++
      js " — the last one sent still works; use it, or wait for the next window")
    { userType := type.name, userId := counted.userId,
      retryAfter := some (max 1 ((endsAt - now + 999) / 1000)) }

/-- Counts one request of `flow`, and refuses past the last one. -/
def countMail (ctx : Context) (type : ResolvedType) (flow : MailFlow) (counted : MailCounted)
    (where_ : Str) : Flow Unit :=
  match ctx.config.mailThrottle with
  | none => pure ()
  | some throttle => do
    let count ← countInWindow (mailWindow ctx throttle flow counted where_)
    if count.attempts.any (· ≤ throttle.attempts) then pure ()
    else do
      let now ← call .now
      Prog.fail (mailThrottled type counted count.endsAt now where_)

def countMailByAddress (ctx : Context) (type : ResolvedType) (flow : MailFlow) (email where_ : Str)
    (userId : Option Str := none) : Flow Unit :=
  countMail ctx type flow (.address (normalizeEmail ctx email) userId) where_

def countMailByUser (ctx : Context) (type : ResolvedType) (flow : MailFlow) (userId where_ : Str) :
    Flow Unit := countMail ctx type flow (.user userId) where_

/-! ## Who holds an address -/

/-- The user of this type whose e-mail this is: looked up as a login, then compared. -/
def holderOfEmail (ctx : Context) (type : ResolvedType) (email : Str) : Flow (Option UserRecord) :=
  let wanted := normalizeEmail ctx email
  if isStorable wanted then do
    let record ← call (.findUserByLogin type.name wanted)
    pure (record.filter fun record => (emailOf type record).map (normalizeEmail ctx) = some wanted)
  else pure none

/-- …when they may be sent a sign-in. -/
def signInHolder (ctx : Context) (type : ResolvedType) (email : Str) :
    Flow (Option UserRecord) := do
  let record ← holderOfEmail ctx type email
  pure (record.filter (·.active))

end Janus.Auth
