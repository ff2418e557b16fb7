import Janus.Auth.Issue
import Janus.Auth.Password

/-!
# Auth/ChangeEmail — a user's e-mail, moved

By an `update`, which then spends the links asked from the address just left, or by the link sent to
the new address.  Either writes under the version it read, and a new address is an unproven one
unless the link reached it.
-/

namespace Janus.Auth

open Js Insertion Calls

/-! ## What a write of the fields changes -/

/-- `{ ...fields, ...patch }`. -/
def spread (fields patch : List (Str × Value)) : List (Str × Value) :=
  patch.foldl (fun fields (key, value) => put fields key value) fields

/-- The login field of these fields, normalised by its own rule. -/
def loginIn (type : ResolvedType) (rule : PasswordRule) (fields : List (Str × Value))
    (where_ : Str) :
    Except Failure Str :=
  match ((fields.lookup rule.login).getD .undefined).asString with
  | none =>
    throw (.typeError (js "janus: password.login \"" ++ rule.login ++
      js "\" did not name a string in validated " ++ type.name ++
      js " fields — it must name a required string field"))
  | some login =>
    let normalized := rule.normalize login
    if isStorable normalized then pure normalized
    else throw <| .janus .userInvalid
      (where_ ++ js ": the fields do not match the " ++ type.name ++ js " schema (1 issue, at " ++
        rule.login ++ js ")")
      { issues := [⟨[rule.login], js "normalises to a login that " ++ unstorable⟩],
        userType := type.name }

/-- What a user signs in with, and is found by: the login and the e-mail, each once. -/
def loginsOf (ctx : Context) (type : ResolvedType) (fields : List (Str × Value)) (where_ : Str) :
    Except Failure (List Str) := do
  let login ← match type.password with
    | none => pure []
    | some rule => List.singleton <$> loginIn type rule fields where_
  let email := ((emailIn type fields).map (normalizeEmail ctx)).toList
  pure (login ++ email.filter (· ∉ login))

/-- Whether the e-mail differs between two sets of fields, compared normalised. -/
def emailChanged (ctx : Context) (type : ResolvedType) (before after : List (Str × Value)) : Bool :=
  (emailIn type before).map (normalizeEmail ctx) ≠ (emailIn type after).map (normalizeEmail ctx)

/-- What `update` writes: the patch over the stored fields, validated, and the logins derived again.
-/
def fieldsPatch (ctx : Context) (type : ResolvedType) (record : UserRecord)
    (patch : List (Str × Value)) (where_ : Str) : Except Failure Patch := do
  let fields ← validateFields type (spread record.fields patch) where_
  let logins ← loginsOf ctx type fields where_
  pure
    { fields := some fields
      logins := some logins
      -- A new e-mail is an unproven one.
      emailVerifiedAt := if emailChanged ctx type record.fields fields then some none else none }

/-! ## By an update -/

/-- Every `changeEmail` link of the user, spent. -/
def spendChangeLinks (userId : Str) : Flow Unit := do
  let now ← call .now
  let _ ← call (.spendUserTokens userId .changeEmail now none)
  pure ()

/-- `update`: a link asked from the address just left is spent, whatever the event says after. -/
def update (ctx : Context) (type : ResolvedType) (user : UserRef) (patch : List (Str × Value))
    (ifVersion : Option ℕ) (at_ : At) : Flow User := do
  let where_ := at_ (js "update")
  let (written, replaced) ← writeUser (idOf user) type ifVersion where_ fun record _ => do
    let patch ← Prog.done (fieldsPatch ctx type record patch where_)
    pure (patch, record)
  if emailChanged ctx type replaced.fields written.fields then do
    (spendChangeLinks written.id).ensure
      (emit ctx (.emailChanged (emailOf type replaced)) written written.updatedAt)
    pure (toUser written)
  else pure (toUser written)

/-! ## By the link -/

/-- Refuses a token asked from an address the user has left. -/
def refuseMoved (ctx : Context) (type : ResolvedType) (user : UserRecord) (token : TokenRecord)
    (secret where_ : Str) : Except Failure Unit :=
  if token.codeHash = some (formerHash ctx secret (emailOf type user)) then pure ()
  else throw <| .janus .tokenStale
    (where_ ++ js ": the token was asked from an e-mail the user no longer has")
    { operation := where_, userId := user.id, userType := type.name }

/-- Spends a change's token, and reads its user: refused for one who moved since the link was asked.
-/
def redeemChangeEmailToken (ctx : Context) (type : Option ResolvedType) (secret where_ : Str) :
    Flow (TokenRecord × UserRecord × ResolvedType) := do
  let token ← spendOneTime ctx secret .changeEmail where_ .token
  let (user, owner) ← ownerOf ctx type token where_
  if (emailOf owner user).isNone then Prog.fail (unknownOneTime where_ .token)
  else do
    Prog.done (refuseMoved ctx owner user token secret where_)
    pure (token, user, owner)

/-- What the link writes: checked again on the record written, and verified by the link. -/
def movedBy (ctx : Context) (type : ResolvedType) (token : TokenRecord) (secret where_ : Str)
    (record : UserRecord) (now : Time) : Except Failure Patch := do
  if !record.active then throw (inactive type record where_)
  refuseMoved ctx type record token secret where_
  let patch ← fieldsPatch ctx type record [(type.email, .str token.address)] where_
  let moved := emailChanged ctx type record.fields (patch.fields.getD record.fields)
  if record.emailVerifiedAt.isNone || moved then
    pure { patch with emailVerifiedAt := some (some now) }
  else pure patch

/-- `changeEmail.confirm`, of one type or of whichever the user has. -/
def confirmChange (ctx : Context) (asked : Option ResolvedType) (secret where_ : Str) :
    Flow User := do
  let (token, user, type) ← redeemChangeEmailToken ctx asked secret where_
  if !user.active then Prog.fail (inactive type user where_)
  else do
    let (written, replaced) ← writeUser user.id type none where_ fun record now => do
      let patch ← Prog.done (movedBy ctx type token secret where_ record now)
      pure (patch, record)
    let moved := emailChanged ctx type replaced.fields written.fields
    let _ ← (if moved then
      emit ctx (.emailChanged (emailOf type replaced)) written written.updatedAt else pure ())
    let _ ← (if moved || replaced.emailVerifiedAt.isNone then
      emit ctx .emailVerified written written.updatedAt else pure ())
    pure (toUser written)

end Janus.Auth
