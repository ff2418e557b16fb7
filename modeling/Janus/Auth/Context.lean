import Janus.Auth.Store
import Janus.Machinery.Outcome

/-!
# Auth/Context — what every flow is handed

The resolved configuration, the hashers, and what the runtime lends: hashes, keyed hashes, ciphers
and random draws, each by what is documented of it.  Then the steps the flows share: reading a user
by id, the password rules, and the comparison of a password with a stored hash.
-/

namespace Janus.Auth

open Js Insertion Calls

/-! ## The runtime -/

/-- A byte of a `Buffer`. -/
abbrev Byte := Fin 256

/-- `Buffer.from(text)`, of a text in ASCII. -/
def bytesOf (text : Str) : List Byte := text.map fun u => Fin.ofNat 256 u.val

/-- A string matched unit by unit, from its first to its last. -/
def matchesAll : List (CodeUnit → Bool) → Str → Bool
  | [], [] => true
  | accepts :: rest, u :: text => accepts u && matchesAll rest text
  | _, _ => false

/-- A decimal digit. -/
def isDigit (u : CodeUnit) : Bool := 48 ≤ u.val && u.val ≤ 57

/-- A digit of base sixteen, lower case. -/
def isHexDigit (u : CodeUnit) : Bool := isDigit u || 97 ≤ u.val && u.val ≤ 102

/-- One unit, and no other. -/
def unit (n : ℕ) (u : CodeUnit) : Bool := u.val = n

/-- `UUID_V7`. -/
def uuidV7 : List (CodeUnit → Bool) :=
  List.replicate 8 isHexDigit ++ [unit 45] ++ List.replicate 4 isHexDigit ++ [unit 45, unit 55] ++
    List.replicate 3 isHexDigit ++ [unit 45, fun u => unit 56 u || unit 57 u || unit 97 u ||
    unit 98 u] ++
    List.replicate 3 isHexDigit ++ [unit 45] ++ List.replicate 12 isHexDigit

/-- Whether this string is an id this package could have minted. -/
def isId (value : Str) : Bool := matchesAll uuidV7 value

/-- What the runtime lends: its hashes and ciphers, and what its random draws give.  A hash names
one text, a secret drawn is drawn once, and a keyed hash is neither an id nor a secret. -/
structure Runtime where
  sha256 : Str → Str
  hmacSha256 : List Byte → Str → List Byte
  hmacSha1 : List Byte → List Byte → List Byte
  hkdfSha256 : List Byte → Str → List Byte
  encrypt : (key iv : List Byte) → (boundTo plain : Str) → List Byte
  decrypt : (key iv : List Byte) → (boundTo : Str) → List Byte → Option Str
  toBase64url : List Byte → Str
  fromBase64url : Str → List Byte
  toLowerCase : Str → Str
  secret : ℕ → Str
  id : Time → ℕ → Str
  iv : ℕ → List Byte
  randomInt : ℕ → ℕ := fun n => n
  randomBytes : ℕ → List Byte := fun n => List.replicate 20 (Fin.ofNat 256 n)
  sha256_injective : Function.Injective sha256
  keyed_injective : ∀ key, Function.Injective fun text => toBase64url (hmacSha256 key text)
  keyed_not_id : ∀ key text, isId (toBase64url (hmacSha256 key text)) = false
  secret_injective : Function.Injective secret
  secret_ne_keyed : ∀ n key text, secret n ≠ toBase64url (hmacSha256 key text)
  id_injective : ∀ {t t' n n'}, id t n = id t' n' → n = n'

/-- White space and line ends, as `trim` and `\s` read them. -/
def isSpace (u : CodeUnit) : Bool :=
  9 ≤ u.val && u.val ≤ 13 || u = 32 || u = 160 || u = 5760 || 8192 ≤ u.val && u.val ≤ 8202 ||
    u = 8232 || u = 8233 || u = 8239 || u = 8287 || u = 12288 || u = 65279

/-- `trim`. -/
def trim (text : Str) : Str := ((text.dropWhile isSpace).reverse.dropWhile isSpace).reverse

/-! ## The configuration -/

/-- A password hashing scheme; `verify` may throw a message of its own.  Its own hashes carry its
prefix, and match the password they were made from; no hash matches two passwords. -/
structure PasswordHasher where
  hashPrefix : Str
  hash : (plain : Str) → (salt : ℕ) → Str
  verify : (plain hash : Str) → Except Str Bool
  needsRehash : Str → Bool
  hash_hashPrefix : ∀ plain salt, hashPrefix.isPrefixOf (hash plain salt) = true
  verify_hash : ∀ plain given salt, verify given (hash plain salt) = .ok (decide (given = plain))
  verify_unique : ∀ {p q stored}, verify p stored = .ok true → verify q stored = .ok true → p = q

/-- What a type signs in with. -/
structure PasswordRule where
  login : Str
  normalize : Str → Str
  minLength : ℕ
  requireVerifiedEmail : Bool

/-- One user type. -/
structure ResolvedType where
  name : Str
  password : Option PasswordRule
  email : Str
  lifespanMs : ℕ
  /-- How long after it was opened or renewed a session used is renewed. -/
  renewAfterMs : Option ℕ := none
  /-- What the application's schema makes of fields. -/
  schema : List (Str × Value) → Except (List Issue) (List (Str × Value)) := .ok

structure Throttle where
  attempts : ℕ
  windowMs : ℕ

/-- The sealing keys: the first seals, and is always held. -/
structure Sealer where
  sealWith : Str
  keys : List (Str × List Byte)
  sealWith_held : (get keys sealWith).isSome

structure SecondFactorSettings where
  sealer : Sealer
  challengeTtlMs : ℕ

/-- Each type is kept under its own name. -/
structure ResolvedConfig where
  types : List (Str × ResolvedType)
  signInThrottle : Option Throttle
  secondFactor : Option SecondFactorSettings
  mailThrottle : Option Throttle := none
  tokenTtlMs : TokenKind → ℕ := fun _ => 600000
  types_named : ∀ entry ∈ types, entry.2.name = entry.1

structure Context where
  runtime : Runtime
  config : ResolvedConfig
  hasher : Option PasswordHasher
  otherVerifiers : List PasswordHasher
  /-- Whether a listener of the events is wired. -/
  events : Bool

/-- The hasher first, then every verifier. -/
def Context.verifiers (ctx : Context) : List PasswordHasher :=
  ctx.hasher.toList ++ ctx.otherVerifiers

/-- How a flow names itself in what it throws. -/
abbrev At := Str → Str

/-! ## Secrets -/

/-- A fresh secret. -/
def mintSecret (ctx : Context) : Flow Str := do
  let drawn ← call .draw
  pure (ctx.runtime.secret drawn)

/-- What a store holds instead of the secret. -/
def hashSecret (ctx : Context) (secret : Str) : Str := ctx.runtime.sha256 secret

/-- A fresh id. -/
def mintId (ctx : Context) (now : Time) : Flow Str := do
  let drawn ← call .draw
  pure (ctx.runtime.id now drawn)

/-- How an e-mail is compared. -/
def normalizeEmail (ctx : Context) (value : Str) : Str := trim (ctx.runtime.toLowerCase value)

/-! ## Events -/

/-- Hands one event to the listener, if there is one. -/
def emit (ctx : Context) (type : UserEventType) (user : UserRecord) (occurredAt : Time) :
    Flow Unit :=
  if ctx.events then call (.emit type user.id user.type occurredAt) else pure ()

/-! ## Reading a user -/

/-- A user, or the id of one: an object's own `version` with it, when it is a number. -/
inductive UserRef where
  | id (id : Str)
  | record (user : Record) (version : Option ℕ)

/-- The id a reference names. -/
def idOf : UserRef → Str
  | .id id => id
  | .record user _ => (user.field (js "id")).toText

/-- The id a JavaScript caller's reference names, or `''`. -/
def refId : UserRef → Str
  | .id id => id
  | .record user _ => ((user.field (js "id")).asString).getD []

/-- A field of a stored user. -/
def UserRecord.field (record : UserRecord) (name : Str) : Value :=
  (record.fields.lookup name).getD .undefined

/-- The user's e-mail, as stored. -/
def emailOf (type : ResolvedType) (record : UserRecord) : Option Str :=
  (record.field type.email).asString

def notFound (where_ id : Str) (type : Option Str) : Failure :=
  .janus .notFound (where_ ++ js ": no " ++ type.getD (js "user") ++ js " has this id")
    { userId := id, userType := type, operation := where_ }

/-- The user — of this type, when one is given. -/
def findRecord (id : Str) (type : Option Str) : Flow (Option UserRecord) :=
  if isId id then do
    let record ← call (.findUser id)
    pure (record.filter fun record => type.all (record.type = ·))
  else pure none

/-- The user, or `NOT_FOUND`. -/
def getRecord (id : Str) (type : Option Str) (where_ : Str) : Flow UserRecord := do
  match ← findRecord id type with
  | some record => pure record
  | none => Prog.fail (notFound where_ id type)

/-- The user holding this normalised login: nobody, for one no store can keep. -/
def byLogin (type : ResolvedType) (login : Str) : Flow (Option UserRecord) :=
  if isStorable login then call (.findUserByLogin type.name login) else pure none

/-- What a write changes: everything but when. -/
structure Patch where
  active : Option Bool := none
  fields : Option (List (Str × Value)) := none
  logins : Option (List Str) := none
  password : Option (Option PasswordRecord) := none
  secondFactor : Option (Option SecondFactorRecord) := none
  avatar : Option (Option AvatarRecord) := none
  emailVerifiedAt : Option (Option Time) := none

/-- …and when. -/
def Patch.updating (patch : Patch) (now : Time) : UserPatch :=
  { active := patch.active
    fields := patch.fields
    logins := patch.logins
    password := patch.password
    secondFactor := patch.secondFactor
    avatar := patch.avatar
    emailVerifiedAt := patch.emailVerifiedAt
    updatedAt := now }

/-- `updateUser`, its refusal thrown. -/
def updateUser (id : Str) (patch : UserPatch) (ifVersion : ℕ) : Flow UserRecord := do
  let answer ← call (.updateUser id patch ifVersion)
  Prog.done answer

def versionMoved (where_ id : Str) (expected actual : ℕ) : Failure :=
  .janus .versionConflict
    (where_ ++ js ": expected version " ++ decimal expected ++ js ", found " ++ decimal actual)
    { userId := id, expectedVersion := expected, actualVersion := actual, operation := where_ }

/-- One write that follows a read, under the version read; with it, what `patchOf` noted. -/
def writeUser {α : Type} (user : Str) (type : ResolvedType) (ifVersion : Option ℕ) (where_ : Str)
    (patchOf : UserRecord → Time → Flow (Patch × α)) : Flow (UserRecord × α) := do
  let record ← getRecord user type.name where_
  match ifVersion.filter (· ≠ record.version) with
  | some expected => Prog.fail (versionMoved where_ user expected record.version)
  | none => do
    let now ← call .now
    let (patch, noted) ← patchOf record now
    let written ← updateUser record.id (patch.updating now) record.version
    pure (written, noted)

/-! ## Passwords -/

/-- The type's password rule, or a wiring refusal. -/
def passwordRule (type : ResolvedType) (where_ : Str) : Except Failure PasswordRule :=
  match type.password with
  | some rule => pure rule
  | none => throw <| .typeError <|
    where_ ++ js ": the " ++ type.name ++
      js " type does not sign in with a password — add password: \x7b login \x7d to it"

/-- Refuses a password shorter than the policy. -/
def checkPassword (type : ResolvedType) (password : Value) (where_ : Str) : Except Failure Unit :=
  let minLength := (type.password.map (·.minLength)).getD 8
  match password.asString.filter (minLength ≤ ·.length) with
  | some _ => pure ()
  | none => throw <| .janus .passwordTooShort
    (where_ ++ js ": the password is shorter than the policy's " ++ decimal minLength ++
      js " characters")
    { minLength := minLength, userType := type.name }

/-- The hasher, or a wiring refusal. -/
def requireHasher (ctx : Context) (where_ : Str) : Except Failure PasswordHasher :=
  match ctx.hasher with
  | some hasher => pure hasher
  | none => throw <| .typeError <|
    where_ ++ js ": no password hasher is wired — pass hasher: scryptHasher(), or bunHasher() on Bun"

/-- `hash`, its salt drawn. -/
def PasswordHasher.hashing (hasher : PasswordHasher) (plain : Str) : Flow Str := do
  let salt ← call .draw
  pure (hasher.hash plain salt)

/-- `$…$`, at the start of a hash. -/
def hashPrefixOf (hash : Str) : Str :=
  match hash with
  | 36 :: rest => if rest.contains 36 then 36 :: rest.takeWhile (· ≠ 36) ++ [36] else js "(none)"
  | _ => js "(none)"

/-- Whether `password` matches the stored hash: asked of the first verifier claiming its prefix. -/
def passwordMatches (ctx : Context) (record : UserRecord) (password where_ : Str) :
    Except Failure Bool :=
  match record.password with
  | none => pure false
  | some stored =>
    match ctx.verifiers.find? (·.hashPrefix.isPrefixOf stored.hash) with
    | none =>
      let hashPrefix := hashPrefixOf stored.hash
      throw <| .janus .hashUnsupported
        (where_ ++ js ": no wired verifier claims the prefix \"" ++ hashPrefix ++ js "\"")
        { hashPrefix := hashPrefix, userId := record.id, userType := record.type }
    | some verifier =>
      match verifier.verify password stored.hash with
      | .ok answer => pure answer
      | .error message => throw (.typeError message)

/-- A write that may lose a race: its answer, or nothing when the version moved under it. -/
def unlessVersionConflict {α : Type} (write : Flow α) : Flow (Option α) := do
  match ← write.attempt with
  | .ok a => pure (some a)
  | .error (.janus .versionConflict ..) => pure none
  | .error e => Prog.fail e

/-- The record, its hash rewritten when the hasher would write another. -/
def rehashed (ctx : Context) (record : UserRecord) (password : Str) : Flow UserRecord :=
  match ctx.hasher, record.password with
  | some hasher, some stored =>
    if !hasher.hashPrefix.isPrefixOf stored.hash || hasher.needsRehash stored.hash then do
      let now ← call .now
      let hash ← hasher.hashing password
      let written ← unlessVersionConflict <| updateUser record.id
        { updatedAt := now, password := some (some ⟨hash, stored.updatedAt⟩) } record.version
      pure (written.getD record)
    else pure record
  | _, _ => pure record

/-! ## A runtime that hides nothing -/

/-- Each unit as two bytes. -/
def pairs (text : Str) : List Byte :=
  text.flatMap fun u => [Fin.ofNat 256 (u.val / 256), Fin.ofNat 256 (u.val % 256)]

theorem pairs_injective : Function.Injective pairs := by
  intro a
  induction a with
  | nil =>
    intro b h
    cases b with
    | nil => rfl
    | cons v b => simp [pairs] at h
  | cons u a ih =>
    intro b h
    cases b with
    | nil => simp [pairs] at h
    | cons v b =>
      simp only [pairs, List.flatMap_cons, List.cons_append, List.nil_append, List.cons.injEq,
        Fin.ofNat, Fin.mk.injEq] at h
      obtain ⟨hhigh, hlow, htail⟩ := h
      have huv : u = v := Fin.ext (by omega)
      rw [huv, ih htail]

/-- Every hash is the text itself, marked, and every draw its number. -/
def plainRuntime : Runtime where
  sha256 := id
  hmacSha256 _ text := pairs text
  hmacSha1 _ _ := List.replicate 20 0
  hkdfSha256 secret _ := secret
  encrypt _ _ _ plain := bytesOf plain
  decrypt _ _ _ bytes := some (bytes.map fun b => Fin.ofNat 65536 b.val)
  toBase64url bytes := js "keyed:" ++ bytes.map fun b => Fin.ofNat 65536 b.val
  fromBase64url text := bytesOf (text.drop 6)
  toLowerCase := id
  secret n := js "secret:" ++ decimal n
  id _ n := js "id:" ++ decimal n
  iv _ := []
  sha256_injective := Function.injective_id
  keyed_injective _ a b h := by
    refine pairs_injective (List.map_injective_iff.mpr (fun x y hxy => ?_)
      (List.append_cancel_left h))
    have hval := congrArg Fin.val hxy
    simp only [Fin.ofNat] at hval
    exact Fin.ext (by omega)
  keyed_not_id _ _ := rfl
  secret_injective _ _ h := decimal_injective (List.append_cancel_left h)
  secret_ne_keyed _ _ _ h := nomatch List.head_eq_of_cons_eq h
  id_injective h := decimal_injective (List.append_cancel_left h)

/-- A hash is the password, behind the prefix. -/
def plainHasher : PasswordHasher where
  hashPrefix := js "$plain$"
  hash plain _ := js "$plain$" ++ plain
  verify given stored := .ok (decide (stored = js "$plain$" ++ given))
  needsRehash _ := false
  hash_hashPrefix _ _ := List.isPrefixOf_iff_prefix.mpr (List.prefix_append ..)
  verify_hash plain given _ := by simp [eq_comm]
  verify_unique hp hq := by
    have hp := of_decide_eq_true (Except.ok.inj hp)
    have hq := of_decide_eq_true (Except.ok.inj hq)
    exact List.append_cancel_left (hp.symm.trans hq)

/-- Patients, who sign in with their e-mail. -/
def patient : ResolvedType where
  name := js "patient"
  password := some
    { login := js "email"
      normalize := id
      minLength := 8
      requireVerifiedEmail := false }
  email := js "email"
  lifespanMs := 3600000

theorem k1_held : (get [(js "k1", ([] : List Byte))] (js "k1")).isSome := rfl

/-- A clinic: two passwords tried at a login each quarter of an hour, and a second factor. -/
def clinic : Context where
  runtime := plainRuntime
  config :=
    { types := [(js "patient", patient)]
      signInThrottle := some ⟨2, 900000⟩
      secondFactor := some ⟨⟨js "k1", [(js "k1", [])], k1_held⟩, 300000⟩
      types_named := by simp [patient] }
  hasher := some plainHasher
  otherVerifiers := []
  events := false

/-- One of them. -/
def ada : UserRecord where
  id := js "00000000-0000-7000-8000-000000000001"
  type := js "patient"
  active := true
  fields := [(js "email", .str (js "ada@clinic.test"))]
  logins := [js "ada@clinic.test"]
  password := some ⟨js "$plain$a long one", 0⟩
  secondFactor := none
  emailVerifiedAt := none
  version := 0
  updatedAt := 0

/-- A clinic nobody asked anything of. -/
def quietClinic : World := ⟨[(ada.id, ada)], [], [], 0, 0, false⟩

end Janus.Auth
