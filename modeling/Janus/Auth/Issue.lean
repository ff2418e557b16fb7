import Janus.Auth.SignIn
import Janus.Auth.Mail

/-!
# Auth/Issue — the links and the codes handed out to e-mail

A sign-in code, a sign-in link, a reset, a change of e-mail and a step-up: each is counted, looked
up, issued, and only then spends every other of its kind the user had.  `request` is `prepare`, then
`send`.
-/

namespace Janus.Auth

open Js Insertion Calls

/-! ## Fields -/

/-- What `janus` sets, and no request. -/
def reservedFields : List Str :=
  [js "id", js "type", js "emailVerified", js "active", js "hasPassword", js "hasSecondFactor",
    js "avatar", js "version", js "createdAt", js "updatedAt", js "password"]

def unstorable : Str := js "holds a NUL character or a lone surrogate, which no store can keep"

/-- An issue for every key and every string no store can keep. -/
def unstorableIn : List (Str × Value) → List Issue
  | [] => []
  | (key, value) :: fields =>
    (if !isStorable key then [⟨[], js "a key " ++ unstorable⟩]
    else match value with
      | .str text => if isStorable text then [] else [⟨[key], unstorable⟩]
      | _ => []) ++ unstorableIn fields

/-- `issue.path.join('.') || '(root)'`. -/
def Issue.at_ (issue : Issue) : Str :=
  let path := [(46 : CodeUnit)].intercalate issue.path
  if path = [] then js "(root)" else path

def userInvalid (type : ResolvedType) (issues : List Issue) (where_ : Str) : Failure :=
  .janus .userInvalid
    (where_ ++ js ": the fields do not match the " ++ type.name ++ js " schema (" ++
      decimal issues.length ++ js " issue" ++ (if issues.length = 1 then [] else js "s") ++
      js ", at " ++
      (js ", ").intercalate (issues.map (·.at_)) ++ js ")")
    { issues := issues, userType := type.name }

/-- Fields against the type's schema, as the port holds them. -/
def validateFields (type : ResolvedType) (input : List (Str × Value)) (where_ : Str) :
    Except Failure (List (Str × Value)) :=
  match type.schema input with
  | .error issues =>
    if issues = [] then pure []
    else throw (userInvalid type (issues.map fun issue =>
      { issue with path := issue.path.takeWhile isStorable }) where_)
  | .ok fields =>
    let issues := ((reservedFields.filter fun key => (fields.lookup key).isSome).map fun key =>
      ⟨[key], js "set by janus, not by a request"⟩) ++ unstorableIn fields
    if issues = [] then pure (fields.filter fun field => field.2 ≠ .undefined)
    else throw (userInvalid type issues where_)

/-- The e-mail of these fields. -/
def emailIn (type : ResolvedType) (fields : List (Str × Value)) : Option Str :=
  ((fields.lookup type.email).getD .undefined).asString

/-! ## Codes -/

/-- Six digits drawn. -/
def drawCode (ctx : Context) : Flow Str := do
  let drawn ← call .draw
  let digits := decimal (ctx.runtime.randomInt drawn % 1000000)
  pure (List.replicate (6 - digits.length) 48 ++ digits)

/-- A one-time token with a code for a person to type. -/
def issueCode (ctx : Context) (token : OneTimeRequest) : Flow ((Str × Time) × Str) := do
  let code ← drawCode ctx
  let issued ← insertOneTime ctx token (some code) none
  pure (issued, code)

/-! ## What a flow hands out -/

structure IssuedToken where
  secret : Str
  code : Option Str := none
  email : Option Str
  expiresAt : Time
  user : Option User := none

/-- Every other unspent token of this kind the user holds, spent. -/
def keepOnlyLatest (ctx : Context) (userId : Str) (kind : TokenKind) (secret : Str) :
    Flow Unit := do
  let now ← call .now
  let _ ← call (.spendUserTokens userId kind now (some (hashSecret ctx secret)))
  pure ()

/-! ### To sign in -/

/-- A code under `challenge`, for the holder of `email`. -/
def issueSignInCode (ctx : Context) (type : ResolvedType) (email challenge : Str) :
    Flow (Option IssuedToken) := do
  match ← signInHolder ctx type email with
  | none => pure none
  | some record => do
    let address := (record.field type.email).toText
    let ((secret, expiresAt), code) ← issueCode ctx
      { kind := .signInCode, userId := record.id, address := address,
        ttlMs := ctx.config.tokenTtlMs .signInCode, secret := some challenge }
    keepOnlyLatest ctx record.id .signInCode secret
    pure (some
      { secret := secret, code := some code, email := some address, expiresAt := expiresAt,
        user := some (toUser record) })

/-- `signInCode.request`: counted, the challenge minted, then looked up and issued under it. -/
def requestSignInCode (ctx : Context) (type : ResolvedType) (email : Str) (at_ : At) :
    Flow (Option IssuedToken) := do
  countMailByAddress ctx type .signInCode email (at_ (js "signInCode.request"))
  let challenge ← mintSecret ctx
  issueSignInCode ctx type email challenge

def issueLink (ctx : Context) (type : ResolvedType) (email : Str) : Flow (Option IssuedToken) := do
  match ← signInHolder ctx type email with
  | none => pure none
  | some record => do
    let address := (record.field type.email).toText
    let (secret, expiresAt) ← issueOneTime ctx
      { kind := .magicLink, userId := record.id, address := address,
        ttlMs := ctx.config.tokenTtlMs .magicLink }
    keepOnlyLatest ctx record.id .magicLink secret
    pure (some
      { secret := secret, email := some address, expiresAt := expiresAt,
        user := some (toUser record) })

/-- `magicLink.request`. -/
def requestLink (ctx : Context) (type : ResolvedType) (email : Str) (at_ : At) :
    Flow (Option IssuedToken) := do
  countMailByAddress ctx type .magicLink email (at_ (js "magicLink.request"))
  issueLink ctx type email

/-! ### To reset a password -/

def noEmail (type : ResolvedType) (user : UserRecord) (where_ : Str) : Failure :=
  .janus .notFound (where_ ++ js ": the user has no e-mail")
    { userId := user.id, userType := type.name, operation := where_ }

/-- A one-time token for the user's current e-mail. -/
def issueEmailToken (ctx : Context) (type : ResolvedType) (kind : TokenKind) (user : UserRecord)
    (where_ : Str) : Flow IssuedToken :=
  match emailOf type user with
  | none => Prog.fail (noEmail type user where_)
  | some email => do
    let (secret, expiresAt) ← issueOneTime ctx
      { kind := kind, userId := user.id, address := email, ttlMs := ctx.config.tokenTtlMs kind }
    pure { secret := secret, email := some email, expiresAt := expiresAt }

def issueReset (ctx : Context) (type : ResolvedType) (email where_ : Str) :
    Flow (Option IssuedToken) := do
  match ← holderOfEmail ctx type email with
  | none => pure none
  | some record => do
    let issued ← issueEmailToken ctx type .resetPassword record where_
    keepOnlyLatest ctx record.id .resetPassword issued.secret
    pure (some { issued with user := some (toUser record) })

/-- `resetPassword.request`. -/
def requestReset (ctx : Context) (type : ResolvedType) (email : Str) (at_ : At) :
    Flow (Option IssuedToken) := do
  let where_ := at_ (js "resetPassword.request")
  let _ ← Prog.done (passwordRule type where_)
  countMailByAddress ctx type .resetPassword email where_
  issueReset ctx type email where_

/-! ### To change the e-mail -/

/-- What binds a token to the address it replaces. -/
def formerHash (ctx : Context) (secret : Str) (former : Option Str) : Str :=
  hashSecret ctx
    (js "janus/changeEmail/former" ++ (0 : CodeUnit) :: secret ++
      (0 : CodeUnit) :: normalizeEmail ctx (former.getD []))

/-- `email` as the user's new address, as the schema left it. -/
def newAddressOf (ctx : Context) (type : ResolvedType) (user : UserRecord) (email where_ : Str) :
    Except Failure Str := do
  let fields ← validateFields type (put user.fields type.email (.str email)) where_
  match emailIn type fields with
  | none =>
    throw (.typeError (js "janus: email \"" ++ type.email ++
      js "\" did not name a string in validated " ++ type.name ++
      js " fields — the schema must keep the e-mail field a required string"))
  | some address =>
    if normalizeEmail ctx address = normalizeEmail ctx ((emailOf type user).getD []) then
      throw <| .janus .userInvalid
        (where_ ++ js ": the new e-mail is the user's current one — a change moves to another " ++
          js "address; verifyEmail proves the current one")
        { issues := [⟨[type.email], js "is the current e-mail of the user"⟩],
          userType := type.name }
    else pure address

/-- The token for the new `address`, bound to the one the user has now. -/
def issueChangeEmailToken (ctx : Context) (type : ResolvedType) (user : UserRecord)
    (address : Str) :
    Flow IssuedToken := do
  let secret ← mintSecret ctx
  let (_, expiresAt) ← issueOneTime ctx
    { kind := .changeEmail, userId := user.id, address := address,
      ttlMs := ctx.config.tokenTtlMs .changeEmail, secret := some secret }
    (some (formerHash ctx secret (emailOf type user)))
  keepOnlyLatest ctx user.id .changeEmail secret
  pure { secret := secret, email := some address, expiresAt := expiresAt }

def inactive (type : ResolvedType) (user : UserRecord) (where_ : Str) : Failure :=
  .janus .userInactive (where_ ++ js ": the user is inactive")
    { userId := user.id, userType := type.name }

/-- `changeEmail.send`. -/
def sendChangeEmail (ctx : Context) (type : ResolvedType) (user : UserRef)
    (email : Str) (at_ : At) :
    Flow IssuedToken := do
  let where_ := at_ (js "changeEmail.send")
  let record ← getRecord (idOf user) type.name where_
  if !record.active then Prog.fail (inactive type record where_)
  else do
    let address ← Prog.done (newAddressOf ctx type record email where_)
    countMailByUser ctx type .changeEmail record.id where_
    countMailByAddress ctx type .changeEmail address where_ (some record.id)
    issueChangeEmailToken ctx type record address

/-! ### To step up -/

/-- A challenge the user's app confirms. -/
def stepUpByApp (ctx : Context) (record : UserRecord) (where_ : Str) : Flow IssuedToken := do
  let _ ← Prog.done (requireSettings ctx where_ (js "the user's second factor is active"))
  let (secret, expiresAt) ← issueOneTime ctx
    { kind := .stepUp, userId := record.id, address := [], ttlMs := ctx.config.tokenTtlMs .stepUp }
  pure { secret := secret, email := none, expiresAt := expiresAt, user := some (toUser record) }

/-- A challenge with a code, for the user's current e-mail. -/
def stepUpByEmail (ctx : Context) (type : ResolvedType) (record : UserRecord) (where_ : Str) :
    Flow IssuedToken :=
  match emailOf type record with
  | none => Prog.fail (noEmail type record where_)
  | some email => do
    countMailByUser ctx type .stepUp record.id where_
    let ((secret, expiresAt), code) ← issueCode ctx
      { kind := .stepUp, userId := record.id, address := email,
        ttlMs := ctx.config.tokenTtlMs .stepUp }
    pure
      { secret := secret, code := some code, email := some email, expiresAt := expiresAt,
        user := some (toUser record) }

/-- `stepUp.request`. -/
def requestStepUp (ctx : Context) (type : ResolvedType) (user : UserRef) (at_ : At) :
    Flow IssuedToken := do
  let where_ := at_ (js "stepUp.request")
  let record ← getRecord (idOf user) type.name where_
  if !record.active then Prog.fail (inactive type record where_)
  else do
    let issued ← (if isActive record.secondFactor then stepUpByApp ctx record where_
      else stepUpByEmail ctx type record where_)
    keepOnlyLatest ctx record.id .stepUp issued.secret
    pure issued

end Janus.Auth
