import Janus.Auth.SignIn

/-!
# Auth/Password — the flows that write a password

A reset, a change and a set each write the record, then spend what the old password left waiting:
the reset links and the second-factor challenges.
-/

namespace Janus.Auth

open Js Insertion Calls

/-- Every unspent token of these kinds the user holds, spent. -/
def spendKinds (userId : Str) (now : Time) : List TokenKind → Flow Unit
  | [] => pure ()
  | kind :: kinds => do
    let _ ← call (.spendUserTokens userId kind now none)
    spendKinds userId now kinds

/-- What writing a password ends besides: the two spends are issued together, and the store takes
either first. -/
def endWhatThePasswordOpened (userId : Str) : Flow Unit := do
  let now ← call .now
  let inOrder ← call .coin
  spendKinds userId now
    (if inOrder then [.resetPassword, .secondFactor] else [.secondFactor, .resetPassword])

/-- What a change and a set do once the password is written. -/
def passwordChanged (ctx : Context) (written : UserRecord) (first : Bool := false) : Flow Unit :=
  (endWhatThePasswordOpened written.id).ensure
    (emit ctx (.passwordChanged first) written written.updatedAt)

/-! ## Changing and setting it -/

/-- The refusal of a current password that does not match. -/
def currentRefused (type : ResolvedType) (record : UserRecord) (where_ : Str) : Failure :=
  .janus .credentialsInvalid (where_ ++ js ": the current password does not match")
    { reason := some (if record.password.isNone then .noPassword else .wrongPassword),
      userId := record.id, userType := type.name }

/-- The current password checked on the record the write replaces, its attempt counted first. -/
def checkCurrent (ctx : Context) (type : ResolvedType) (record : UserRecord)
    (current where_ : Str) :
    Flow Unit := do
  let _ ← (match loginOf type record with
    | some login => countSignInAttempt ctx type login where_
    | none => pure ())
  if ← Prog.done (passwordMatches ctx record current where_) then pure ()
  else Prog.fail (currentRefused type record where_)

/-- Replaces the password after checking the current one, in the write that replaces it. -/
def changePassword (ctx : Context) (type : ResolvedType) (user : UserRef) (current : Str)
    (next : Value) (ifVersion : Option ℕ) (at_ : At) : Flow UserRecord := do
  let where_ := at_ (js "changePassword")
  let _ ← Prog.done (passwordRule type where_)
  Prog.done (checkPassword type next where_)
  let hasher ← Prog.done (requireHasher ctx where_)
  let (written, _) ← writeUser (idOf user) type ifVersion where_ fun record now => do
    checkCurrent ctx type record current where_
    let hash ← hasher.hashing next.toText
    pure ({ password := some (some ⟨hash, now⟩) }, ())
  passwordChanged ctx written
  restartSignInCount ctx type written where_
  pure written

/-- Sets the password, whatever it was. -/
def setPassword (ctx : Context) (type : ResolvedType) (user : UserRef) (password : Value)
    (ifVersion : Option ℕ) (at_ : At) : Flow User := do
  let where_ := at_ (js "setPassword")
  let _ ← Prog.done (passwordRule type where_)
  Prog.done (checkPassword type password where_)
  let hasher ← Prog.done (requireHasher ctx where_)
  let hash ← hasher.hashing password.toText
  let (written, first) ← writeUser (idOf user) type ifVersion where_ fun record now =>
    pure ({ password := some (some ⟨hash, now⟩) }, record.password.isNone)
  passwordChanged ctx written first
  pure (toUser written)

/-! ## Resetting it -/

/-- The user a one-time token was issued to, and the type that owns them. -/
def ownerOf (ctx : Context) (type : Option ResolvedType) (token : TokenRecord) (where_ : Str) :
    Flow (UserRecord × ResolvedType) := do
  match ← findRecord token.userId (type.map (·.name)) with
  | none => Prog.fail (unknownOneTime where_ .token)
  | some user =>
    match type.or (get ctx.config.types user.type) with
    | none => Prog.fail (unknownOneTime where_ .token)
    | some owner => pure (user, owner)

/-- Spends a token sent by e-mail, and reads its user: a token sent to an e-mail the user no longer
has is stale. -/
def redeemEmailToken (ctx : Context) (type : Option ResolvedType) (kind : TokenKind)
    (secret where_ : Str) : Flow (TokenRecord × UserRecord × ResolvedType) := do
  let token ← spendOneTime ctx secret kind where_ .token
  let (user, owner) ← ownerOf ctx type token where_
  if type.isNone ∧ (emailOf owner user).isNone then Prog.fail (unknownOneTime where_ .token)
  else do
    Prog.done (refuseStale ctx owner user token where_ .token)
    pure (token, user, owner)

/-- The type whose password rule is the strictest: the first declared wins a tie. -/
def strictestType (ctx : Context) : Option ResolvedType :=
  (ctx.config.types.foldl (fun strictest (_, type) =>
    match type.password, strictest with
    | none, _ => strictest
    | some rule, none => some (type, rule.minLength)
    | some rule, some (_, longest) =>
      if longest < rule.minLength then some (type, rule.minLength) else strictest)
    (none : Option (ResolvedType × ℕ))).map Prod.fst

/-- What is refused before the token is spent: nothing, with no type with a password at the root. -/
def hashToReset (ctx : Context) (asked : Option ResolvedType) (password : Value) (where_ : Str) :
    Flow Str := do
  let _ ← Prog.done (asked.elim (pure ()) fun type => (fun _ => ()) <$> passwordRule type where_)
  match asked.or (strictestType ctx) with
  | none => pure []
  | some gate => do
    Prog.done (checkPassword gate password where_)
    let hasher ← Prog.done (requireHasher ctx where_)
    hasher.hashing password.toText

/-- At the root, the user's own type answers once the token is spent. -/
def checkOwner (asked : Option ResolvedType) (type : ResolvedType) (password : Value)
    (where_ : Str) :
    Except Failure Unit :=
  if asked.isSome then pure ()
  else if type.password.isNone then throw (unknownOneTime where_ .token)
  else checkPassword type password where_

/-- Redeems a reset token: sets the password, proves the e-mail, signs out everywhere. -/
def confirmReset (ctx : Context) (asked : Option ResolvedType) (secret : Str) (password : Value)
    (where_ : Str) : Flow User := do
  let hash ← hashToReset ctx asked password where_
  let (token, user, type) ← redeemEmailToken ctx asked .resetPassword secret where_
  Prog.done (checkOwner asked type password where_)
  let (written, newlyVerified) ← writeUser user.id type none where_ fun record now => do
    Prog.done (refuseStale ctx type record token where_ .token)
    pure ({ password := some (some ⟨hash, now⟩)
            emailVerifiedAt := if record.emailVerifiedAt.isNone then some (some now) else none },
      record.emailVerifiedAt.isNone)
  let ending : Flow Unit := do
    let now ← call .now
    let _ ← call (.revokeUserSessions written.id now none)
    endWhatThePasswordOpened written.id
  ending.ensure do
    emit ctx .passwordReset written written.updatedAt
    if newlyVerified then emit ctx .emailVerified written written.updatedAt else pure ()
  pure (toUser written)

end Janus.Auth
