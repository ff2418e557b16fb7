import Janus.Js.Value
import Janus.Machinery.Insertion
import Janus.Machinery.Calls

/-!
# Auth/Store — the records, and the stores in memory

The users, the sessions and the one-time tokens, each a map in insertion order; what one call reads
and writes of them is one step of `exec`.  The clock, the random draws and the order in which the
stores take two calls issued together are calls too, answered from the same state.
-/

namespace Janus.Auth

open Js Insertion

/-- Milliseconds since the epoch. -/
abbrev Time := ℕ

/-! ## Errors -/

/-- `JanusErrorCode`, as far as these flows throw one. -/
inductive Code where
  | storeFailed
  | notFound
  | versionConflict
  | loginTaken
  | passwordTooShort
  | credentialsInvalid
  | hashUnsupported
  | userInactive
  | emailUnverified
  | tokenUnknown
  | tokenSpent
  | tokenExpired
  | tokenStale
  | codeInvalid
  | mailThrottled
  | secondFactorNotEnrolled
  | secondFactorActive
  | userInvalid
  | avatarIdInvalid
deriving DecidableEq

/-- Why `CREDENTIALS_INVALID` was answered. -/
inductive CredentialRefusal where
  | unknownLogin
  | noPassword
  | wrongPassword
  | throttled
deriving DecidableEq

/-- Where fields do not match a schema, never what they hold. -/
structure Issue where
  path : List Str
  message : Str
deriving DecidableEq

/-- What an error says beside its message. -/
structure Details where
  userId : Option Str := none
  userType : Option Str := none
  reason : Option CredentialRefusal := none
  hashPrefix : Option Str := none
  login : Option Str := none
  expectedVersion : Option ℕ := none
  actualVersion : Option ℕ := none
  minLength : Option ℕ := none
  operation : Option Str := none
  slot : Option Str := none
  attemptsLeft : Option ℕ := none
  retryAfter : Option ℕ := none
  issues : List Issue := []
deriving DecidableEq

/-- What a flow throws: a wiring mistake, a number out of a buffer's range, or a `JanusError`. -/
inductive Failure where
  | typeError (message : Str)
  | rangeError (message : Str)
  | janus (code : Code) (message : Str) (details : Details)
deriving DecidableEq

/-! ## Records -/

/-- A password, by its self-describing hash. -/
structure PasswordRecord where
  hash : Str
  updatedAt : Time
deriving DecidableEq

/-- A second factor; `confirmedAt` is set once it is active. -/
structure SecondFactorRecord where
  secret : Str
  confirmedAt : Option Time
  lastStep : Option ℕ
  recoveryCodes : List Str
deriving DecidableEq

/-- The image the application keeps of a user, by the id it stored it under. -/
structure AvatarRecord where
  id : Str
  updatedAt : Time
deriving DecidableEq

/-- A user, as a store holds it. -/
structure UserRecord where
  id : Str
  type : Str
  active : Bool
  fields : List (Str × Value)
  logins : List Str
  password : Option PasswordRecord
  secondFactor : Option SecondFactorRecord
  emailVerifiedAt : Option Time
  version : ℕ
  updatedAt : Time
  avatar : Option AvatarRecord := none
deriving DecidableEq

/-- What one `updateUser` changes: a field not named is left as it is. -/
structure UserPatch where
  updatedAt : Time
  active : Option Bool := none
  fields : Option (List (Str × Value)) := none
  logins : Option (List Str) := none
  password : Option (Option PasswordRecord) := none
  secondFactor : Option (Option SecondFactorRecord) := none
  avatar : Option (Option AvatarRecord) := none
  emailVerifiedAt : Option (Option Time) := none
deriving DecidableEq

structure SessionRecord where
  id : Str
  tokenHash : Str
  userId : Str
  authenticatedAt : Time
  expiresAt : Time
  revokedAt : Option Time
  createdAt : Time
deriving DecidableEq

/-- What a one-time token is for. -/
inductive TokenKind where
  | verifyEmail
  | resetPassword
  | secondFactor
  | signInCode
  | magicLink
  | stepUp
  | changeEmail
deriving DecidableEq

structure TokenRecord where
  tokenHash : Str
  kind : TokenKind
  userId : Str
  address : Str
  codeHash : Option Str
  attempts : ℕ
  expiresAt : Time
  spentAt : Option Time
  createdAt : Time
deriving DecidableEq

/-! ## What one call does to a store -/

/-- The record a patch produces. -/
def applyPatch (stored : UserRecord) (patch : UserPatch) : UserRecord :=
  { stored with
    active := patch.active.getD stored.active
    fields := patch.fields.getD stored.fields
    logins := patch.logins.getD stored.logins
    password := patch.password.getD stored.password
    secondFactor := patch.secondFactor.getD stored.secondFactor
    avatar := patch.avatar.getD stored.avatar
    emailVerifiedAt := patch.emailVerifiedAt.getD stored.emailVerifiedAt
    version := stored.version + 1
    updatedAt := patch.updatedAt }

/-- The user of this type holding this login. -/
def userByLogin (users : List (Str × UserRecord)) (type login : Str) : Option UserRecord :=
  (users.map Prod.fst).findSome? fun id =>
    (get users id).filter fun user => user.type = type ∧ login ∈ user.logins

theorem get_of_userByLogin {users : List (Str × UserRecord)} {type login : Str} {user : UserRecord}
    (h : userByLogin users type login = some user) :
    (∃ id, get users id = some user) ∧ user.type = type := by
  obtain ⟨id, -, hid⟩ := List.exists_of_findSome?_eq_some h
  obtain ⟨hget, hholds⟩ := Option.filter_eq_some_iff.mp hid
  exact ⟨⟨id, hget⟩, (of_decide_eq_true hholds).1⟩

/-- The first of these logins held by another user of the type. -/
def takenBy (users : List (Str × UserRecord)) (type : Str) (logins : List Str) (id : Str) :
    Option Str :=
  logins.find? fun login => (userByLogin users type login).any fun holder => holder.id ≠ id

/-- The conflict a login held by another user is refused with. -/
def taken (operation type login : Str) : Failure :=
  .janus .loginTaken (operation ++ js ": the login is taken by another " ++ type)
    { login := login, userType := type, operation := operation }

/-- `updateUser` in memory: refused for an unknown id, a version that moved or a login held by
another user. -/
def updateStored (users : List (Str × UserRecord)) (id : Str) (patch : UserPatch) (ifVersion : ℕ) :
    Except Failure UserRecord × List (Str × UserRecord) :=
  match get users id with
  | none =>
    (.error (.janus .notFound (js "updateUser: no user has this id")
      { userId := id, operation := js "updateUser" }), users)
  | some stored =>
    if stored.version ≠ ifVersion then
      (.error (.janus .versionConflict
        (js "updateUser: expected version " ++ decimal ifVersion ++ js ", found " ++
          decimal stored.version)
        { userId := id, expectedVersion := ifVersion, actualVersion := stored.version,
          operation := js "updateUser" }), users)
    else
      match takenBy users stored.type (patch.logins.getD []) id with
      | some login => (.error (taken (js "updateUser") stored.type login), users)
      | none =>
        let written := applyPatch stored patch
        (.ok written, put users id written)

section Sessions

variable (sessions : List (Str × SessionRecord))

def insertSession (record : SessionRecord) : List (Str × SessionRecord) :=
  if (get sessions record.id).isSome then sessions else put sessions record.id record

/-- A session revoked keeps its first `revokedAt`. -/
def SessionRecord.revoked (at_ : Time) (stored : SessionRecord) : SessionRecord :=
  if stored.revokedAt = none then { stored with revokedAt := some at_ } else stored

def revokeSession (id : Str) (at_ : Time) : Bool × List (Str × SessionRecord) :=
  match get sessions id with
  | none => (false, sessions)
  | some stored => (true, put sessions id (stored.revoked at_))

/-- The session of this token: the index names the one inserted last. -/
def sessionByTokenHash (tokenHash : Str) : Option SessionRecord :=
  (sessions.map Prod.snd).reverse.find? fun stored => stored.tokenHash = tokenHash

/-- Writes `patch` on a session only while it is not revoked: one that was is never brought back. -/
def standingWrite (id : Str) (patch : SessionRecord → SessionRecord) :
    Option SessionRecord × List (Str × SessionRecord) :=
  match (get sessions id).filter fun stored => stored.revokedAt = none with
  | none => (none, sessions)
  | some stored => (some (patch stored), put sessions id (patch stored))

def extendSession (id : Str) (expiresAt : Time) :
    Option SessionRecord × List (Str × SessionRecord) :=
  standingWrite sessions id fun stored => { stored with expiresAt }

def reauthenticateSession (id : Str) (at_ : Time) :
    Option SessionRecord × List (Str × SessionRecord) :=
  standingWrite sessions id fun stored => { stored with authenticatedAt := at_ }

/-- Revokes every session of a user, but for the excepted one. -/
def revokeUserSessions (userId : Str) (at_ : Time) (except : Option Str) :
    ℕ × List (Str × SessionRecord) :=
  (sessions.countP fun e => e.2.userId = userId ∧ e.2.revokedAt = none ∧ some e.1 ≠ except,
    sessions.map fun e =>
      (e.1, if e.2.userId = userId ∧ some e.1 ≠ except then e.2.revoked at_ else e.2))

variable {sessions}

theorem get_revokeUserSessions (userId : Str) (at_ : Time) (except : Option Str) (id : Str) :
    get (revokeUserSessions sessions userId at_ except).2 id = (get sessions id).map fun stored =>
      if stored.userId = userId ∧ some id ≠ except then stored.revoked at_ else stored :=
  get_map (fun k (stored : SessionRecord) =>
    if stored.userId = userId ∧ some k ≠ except then stored.revoked at_ else stored) sessions id

end Sessions

section Tokens

variable (tokens : List (Str × TokenRecord))

def insertToken (record : TokenRecord) : List (Str × TokenRecord) :=
  if (get tokens record.tokenHash).isSome then tokens else put tokens record.tokenHash record

/-- The token of this hash and this kind. -/
def findToken (tokenHash : Str) (kind : TokenKind) : Option TokenRecord :=
  (get tokens tokenHash).filter fun stored => stored.kind = kind

/-- …written in one step. -/
def writeToken (tokenHash : Str) (kind : TokenKind) (write : TokenRecord → TokenRecord) :
    List (Str × TokenRecord) :=
  match findToken tokens tokenHash kind with
  | none => tokens
  | some stored => put tokens tokenHash (write stored)

/-- A token spent keeps its first `spentAt`. -/
def TokenRecord.spent (at_ : Time) (stored : TokenRecord) : TokenRecord :=
  if stored.spentAt = none then { stored with spentAt := some at_ } else stored

/-- Spends a token, answered as it was before. -/
def consumeToken (tokenHash : Str) (kind : TokenKind) (at_ : Time) :
    Option TokenRecord × List (Str × TokenRecord) :=
  (findToken tokens tokenHash kind, writeToken tokens tokenHash kind (·.spent at_))

/-- One attempt at an unspent token. -/
def TokenRecord.counted (stored : TokenRecord) : TokenRecord :=
  if stored.spentAt = none then { stored with attempts := stored.attempts + 1 } else stored

/-- Counts one attempt, and answers the token as it is after. -/
def countAttempt (tokenHash : Str) (kind : TokenKind) :
    Option TokenRecord × List (Str × TokenRecord) :=
  ((findToken tokens tokenHash kind).map (·.counted), writeToken tokens tokenHash kind (·.counted))

/-- Whether `spendUserTokens` reaches a token. -/
def TokenRecord.isOf (stored : TokenRecord) (userId : Str) (kind : TokenKind)
    (except : Option Str) :
    Bool :=
  some stored.tokenHash ≠ except ∧ stored.userId = userId ∧ stored.kind = kind

def spendUserTokens (userId : Str) (kind : TokenKind) (at_ : Time) (except : Option Str) :
    ℕ × List (Str × TokenRecord) :=
  (tokens.countP fun e => e.2.isOf userId kind except ∧ e.2.spentAt = none,
    mapValues (fun stored => if stored.isOf userId kind except then stored.spent at_ else stored)
      tokens)

variable {tokens}

theorem get_insertToken (record : TokenRecord) (hash : Str) :
    get (insertToken tokens record) hash =
      if record.tokenHash = hash then some ((get tokens hash).getD record) else
      get tokens hash := by
  rw [insertToken]
  split
  case isTrue h =>
    obtain ⟨stored, hstored⟩ := Option.isSome_iff_exists.mp h
    split
    case isTrue e => rw [← e, hstored, Option.getD_some]
    case isFalse => rfl
  case isFalse h =>
    rw [get_put]
    split
    case isTrue e => rw [← e, Option.not_isSome_iff_eq_none.mp h, Option.getD_none]
    case isFalse => rfl

theorem get_writeToken (tokenHash : Str) (kind : TokenKind) (write : TokenRecord → TokenRecord)
    (hash : Str) :
    get (writeToken tokens tokenHash kind write) hash = (get tokens hash).map fun stored =>
      if tokenHash = hash ∧ stored.kind = kind then write stored else stored := by
  unfold writeToken findToken
  by_cases h : tokenHash = hash
  · subst h
    cases hstored : get tokens tokenHash with
    | none => simp [hstored]
    | some stored => by_cases hkind : stored.kind = kind <;> simp [Option.filter, hkind, hstored]
  · split
    · simp [h]
    · rw [get_put_ne _ _ h]
      simp [h]

theorem get_spendUserTokens (userId : Str) (kind : TokenKind) (at_ : Time) (except : Option Str)
    (hash : Str) :
    get (spendUserTokens tokens userId kind at_ except).2 hash = (get tokens hash).map fun stored =>
      if stored.isOf userId kind except then stored.spent at_ else stored := by
  rw [spendUserTokens, get_mapValues]

end Tokens

/-! ## The calls -/

/-- What happened to a user, as far as these flows report it. -/
inductive UserEventType where
  | emailVerified
  | emailChanged (formerEmail : Option Str)
  | avatarChanged (formerAvatarId : Option Str)
  | avatarRemoved (formerAvatarId : Option Str)
  | passwordReset
  | passwordChanged (first : Bool)
  | secondFactorEnabled
  | secondFactorDisabled
  | recoveryCodeUsed
  | recoveryCodesRegenerated
deriving DecidableEq

/-- An event that tells what a write replaced. -/
def UserEventType.replaces : UserEventType → Bool
  | .emailChanged _ | .avatarChanged _ | .avatarRemoved _ => true
  | _ => false

/-- One call a flow waits for. -/
inductive Call where
  | findUser (id : Str)
  | findUserByLogin (type login : Str)
  | updateUser (id : Str) (patch : UserPatch) (ifVersion : ℕ)
  | insertSession (record : SessionRecord)
  | findSessionByTokenHash (tokenHash : Str)
  | extendSession (id : Str) (expiresAt : Time)
  | reauthenticateSession (id : Str) (at_ : Time)
  | revokeSession (id : Str) (at_ : Time)
  | revokeUserSessions (userId : Str) (at_ : Time) (except : Option Str)
  | insertToken (record : TokenRecord)
  | consumeToken (tokenHash : Str) (kind : TokenKind) (at_ : Time)
  | countAttempt (tokenHash : Str) (kind : TokenKind)
  | spendUserTokens (userId : Str) (kind : TokenKind) (at_ : Time) (except : Option Str)
  | now
  | draw
  | coin
  | emit (type : UserEventType) (userId userType : Str) (occurredAt : Time)

/-- What each call answers. -/
@[reducible] def Answer : Call → Type
  | .findUser _ | .findUserByLogin _ _ => Option UserRecord
  | .updateUser _ _ _ => Except Failure UserRecord
  | .insertSession _ | .insertToken _ | .emit _ _ _ _ => Unit
  | .findSessionByTokenHash _ | .extendSession _ _ | .reauthenticateSession _ _ =>
    Option SessionRecord
  | .revokeSession _ _ | .coin => Bool
  | .revokeUserSessions _ _ _ | .spendUserTokens _ _ _ _ | .now | .draw => ℕ
  | .consumeToken _ _ _ | .countAttempt _ _ => Option TokenRecord

/-- Everything a call reads or writes. -/
structure World where
  users : List (Str × UserRecord)
  sessions : List (Str × SessionRecord)
  tokens : List (Str × TokenRecord)
  clock : Time
  draws : ℕ
  coin : Bool

/-- One call answered. -/
def exec : (c : Call) → World → Answer c × World
  | .findUser id, w => (get w.users id, w)
  | .findUserByLogin type login, w => (userByLogin w.users type login, w)
  | .updateUser id patch ifVersion, w =>
    let (answer, users) := updateStored w.users id patch ifVersion
    (answer, { w with users })
  | .insertSession record, w => ((), { w with sessions := insertSession w.sessions record })
  | .findSessionByTokenHash tokenHash, w => (sessionByTokenHash w.sessions tokenHash, w)
  | .extendSession id expiresAt, w =>
    let (answer, sessions) := extendSession w.sessions id expiresAt
    (answer, { w with sessions })
  | .reauthenticateSession id at_, w =>
    let (answer, sessions) := reauthenticateSession w.sessions id at_
    (answer, { w with sessions })
  | .revokeSession id at_, w =>
    let (answer, sessions) := revokeSession w.sessions id at_
    (answer, { w with sessions })
  | .revokeUserSessions userId at_ except, w =>
    let (answer, sessions) := revokeUserSessions w.sessions userId at_ except
    (answer, { w with sessions })
  | .insertToken record, w => ((), { w with tokens := insertToken w.tokens record })
  | .consumeToken tokenHash kind at_, w =>
    let (answer, tokens) := consumeToken w.tokens tokenHash kind at_
    (answer, { w with tokens })
  | .countAttempt tokenHash kind, w =>
    let (answer, tokens) := countAttempt w.tokens tokenHash kind
    (answer, { w with tokens })
  | .spendUserTokens userId kind at_ except, w =>
    let (answer, tokens) := spendUserTokens w.tokens userId kind at_ except
    (answer, { w with tokens })
  | .now, w => (w.clock, w)
  | .draw, w => (w.draws, { w with draws := w.draws + 1 })
  | .coin, w => (w.coin, w)
  | .emit _ _ _ _, w => ((), w)

/-- A write answered was made on the version it named. -/
theorem exec_updateUser {w : World} {id : Str} {patch : UserPatch} {ifVersion : ℕ}
    {written : UserRecord} (h : (exec (.updateUser id patch ifVersion) w).1 = .ok written) :
    ∃ stored, get w.users id = some stored ∧ stored.version = ifVersion ∧
      written = applyPatch stored patch ∧
      (exec (.updateUser id patch ifVersion) w).2 = { w with users := put w.users id written } := by
  simp only [exec, updateStored] at h ⊢
  cases hstored : get w.users id with
  | none =>
    rw [hstored] at h
    cases h
  | some stored =>
    rw [hstored] at h
    dsimp only at h ⊢
    split at h
    case isTrue => cases h
    case isFalse hversion =>
      rw [if_neg hversion]
      split at h
      case h_1 => cases h
      case h_2 =>
        cases h
        exact ⟨stored, rfl, not_not.mp hversion, rfl, rfl⟩

/-- A write refused moved nothing: nobody has the id, the version had moved, or a login is taken. -/
theorem exec_updateUser_error {w : World} {id : Str} {patch : UserPatch} {ifVersion : ℕ}
    {e : Failure} (h : (exec (.updateUser id patch ifVersion) w).1 = .error e) :
    (exec (.updateUser id patch ifVersion) w).2 = w ∧
      (get w.users id = none ∧ (∃ message details, e = .janus .notFound message details) ∨
        (∃ message details, e = .janus .versionConflict message details) ∨
        patch.logins ≠ none ∧ ∃ message details, e = .janus .loginTaken message details) := by
  simp only [exec, updateStored] at h ⊢
  cases hstored : get w.users id with
  | none =>
    rw [hstored] at h
    cases h
    exact ⟨rfl, Or.inl ⟨rfl, _, _, rfl⟩⟩
  | some stored =>
    rw [hstored] at h
    dsimp only at h ⊢
    split at h
    case isTrue hversion =>
      cases h
      rw [if_pos hversion]
      exact ⟨rfl, Or.inr (Or.inl ⟨_, _, rfl⟩)⟩
    case isFalse hversion =>
      rw [if_neg hversion]
      split at h
      case h_1 login htaken =>
        cases h
        refine ⟨rfl, Or.inr (Or.inr ⟨fun hnone => ?_, _, _, rfl⟩)⟩
        rw [hnone] at htaken
        cases htaken
      case h_2 => cases h

/-- What moves by itself: the clock, to any time, and which of two calls comes first. -/
inductive Drift where
  | tick (time : Time)
  | toss (first : Bool)

def drift : Drift → World → World
  | .tick time, w => { w with clock := time }
  | .toss first, w => { w with coin := first }

/-- What a flow does: its calls, one after the other, to what it answers or throws. -/
abbrev Flow := Calls.Prog Call Answer Failure

/-- One call of a flow. -/
def call (c : Call) : Flow (Answer c) := Calls.Prog.perform c

end Janus.Auth
