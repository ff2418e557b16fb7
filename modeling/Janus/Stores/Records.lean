import Janus.Js.Json

/-!
# Stores/Records — a patch applied by three stores alike

The port's user record as the store in memory patches it, and as the two database stores flatten it:
a row of columns, and a document.  A patch is columns or fields overwritten; read back, each is the
record the store in memory makes (`Drizzle.toUser_set`, `Mongo.toUser_set`).
-/

namespace Janus.Stores

open Js

/-- Milliseconds since the epoch. -/
abbrev Time := ℤ

/-! ## The port's record, and the patch of it -/

structure PasswordRecord where
  hash : Str
  updatedAt : Time

structure SecondFactorRecord where
  method : Str
  secret : Str
  confirmedAt : Option Time
  lastStep : Option ℕ
  recoveryCodes : List Str

structure AvatarRecord where
  id : Str
  updatedAt : Time

structure UserRecord where
  id : Str
  type : Str
  schemaVersion : Str
  active : Bool
  fields : Json
  logins : List Str
  password : Option PasswordRecord
  secondFactor : Option SecondFactorRecord
  avatar : Option AvatarRecord
  emailVerifiedAt : Option Time
  version : ℕ
  createdAt : Time
  updatedAt : Time

/-- A key a patch may have: left out, present and undefined, or set. -/
inductive Key (α : Type) where
  | absent
  | undefined
  | set (value : α)

structure UserPatch where
  updatedAt : Time
  schemaVersion : Key Str
  active : Key Bool
  fields : Key Json
  logins : Key (List Str)
  password : Key (Option PasswordRecord)
  secondFactor : Key (Option SecondFactorRecord)
  avatar : Key (Option AvatarRecord)
  emailVerifiedAt : Key (Option Time)

section Key

variable {α β : Type}

/-- What a key reads as: `none` for undefined. -/
def Key.value : Key α → Option α
  | .absent | .undefined => none
  | .set value => some value

/-- `patch.key === undefined ? stored : patch.key`. -/
def Key.or (key : Key α) (stored : α) : α := key.value.getD stored

/-- A key overwritten where it is named. -/
def overwritten (stored : α) (named : Option α) : α := named.getD stored

theorem overwritten_value (stored : α) (key : Key α) :
    overwritten stored key.value = key.or stored := rfl

/-- What is flattened and overwritten is what is overwritten, flattened. -/
theorem overwritten_map (write : α → β) (stored : α) (key : Key α) :
    overwritten (write stored) (key.value.map write) = write (key.or stored) := by
  cases key <;> rfl

end Key

/-- The record a patch produces, in memory. -/
def applyPatch (stored : UserRecord) (patch : UserPatch) : UserRecord :=
  { stored with
    schemaVersion := patch.schemaVersion.or stored.schemaVersion
    active := patch.active.or stored.active
    fields := patch.fields.or stored.fields
    logins := patch.logins.or stored.logins
    password := patch.password.or stored.password
    secondFactor := patch.secondFactor.or stored.secondFactor
    avatar := patch.avatar.or stored.avatar
    emailVerifiedAt := patch.emailVerifiedAt.or stored.emailVerifiedAt
    version := stored.version + 1
    updatedAt := patch.updatedAt }

/-! ## A row -/

namespace Drizzle

structure UserRow where
  id : Str
  type : Str
  schemaVersion : Str
  active : Bool
  fields : Json
  logins : List Str
  passwordHash : Option Str
  passwordUpdatedAt : Option Time
  secondFactorMethod : Option Str
  secondFactorSecret : Option Str
  secondFactorConfirmedAt : Option Time
  secondFactorLastStep : Option ℕ
  secondFactorRecoveryCodes : Option (List Str)
  avatarId : Option Str
  avatarUpdatedAt : Option Time
  emailVerifiedAt : Option Time
  version : ℕ
  createdAt : Time
  updatedAt : Time

/-- The columns an update names. -/
structure UserSet where
  updatedAt : Time
  schemaVersion : Option Str := none
  active : Option Bool := none
  fields : Option Json := none
  logins : Option (List Str) := none
  emailVerifiedAt : Option (Option Time) := none
  passwordHash : Option (Option Str) := none
  passwordUpdatedAt : Option (Option Time) := none
  secondFactorMethod : Option (Option Str) := none
  secondFactorSecret : Option (Option Str) := none
  secondFactorConfirmedAt : Option (Option Time) := none
  secondFactorLastStep : Option (Option ℕ) := none
  secondFactorRecoveryCodes : Option (Option (List Str)) := none
  avatarId : Option (Option Str) := none
  avatarUpdatedAt : Option (Option Time) := none

structure AvatarColumns where
  avatarId : Option Str
  avatarUpdatedAt : Option Time

/-- An avatar as its columns, both `null` for none. -/
def toAvatarColumns (avatar : Option AvatarRecord) : AvatarColumns where
  avatarId := avatar.map (·.id)
  avatarUpdatedAt := avatar.map (·.updatedAt)

structure SecondFactorColumns where
  secondFactorMethod : Option Str
  secondFactorSecret : Option Str
  secondFactorConfirmedAt : Option Time
  secondFactorLastStep : Option ℕ
  secondFactorRecoveryCodes : Option (List Str)

/-- A second factor as its columns, all `null` for none: no codes are `null` too. -/
def toSecondFactorColumns (secondFactor : Option SecondFactorRecord) : SecondFactorColumns :=
  let codes := (secondFactor.map (·.recoveryCodes)).getD []
  { secondFactorMethod := secondFactor.map (·.method)
    secondFactorSecret := secondFactor.map (·.secret)
    secondFactorConfirmedAt := secondFactor.bind (·.confirmedAt)
    secondFactorLastStep := secondFactor.bind (·.lastStep)
    secondFactorRecoveryCodes := if codes.length = 0 then none else some codes }

def toUserRow (record : UserRecord) : UserRow :=
  { toSecondFactorColumns record.secondFactor, toAvatarColumns record.avatar with
    id := record.id
    type := record.type
    schemaVersion := record.schemaVersion
    active := record.active
    fields := record.fields
    logins := record.logins
    passwordHash := record.password.map (·.hash)
    passwordUpdatedAt := record.password.map (·.updatedAt)
    emailVerifiedAt := record.emailVerifiedAt
    version := record.version
    createdAt := record.createdAt
    updatedAt := record.updatedAt }

/-- The columns a patch names. -/
def toUserSet (patch : UserPatch) : UserSet where
  updatedAt := patch.updatedAt
  schemaVersion := patch.schemaVersion.value
  active := patch.active.value
  fields := patch.fields.value
  logins := patch.logins.value
  emailVerifiedAt := patch.emailVerifiedAt.value
  passwordHash := patch.password.value.map fun password => password.map (·.hash)
  passwordUpdatedAt := patch.password.value.map fun password => password.map (·.updatedAt)
  secondFactorMethod := patch.secondFactor.value.map fun factor =>
    (toSecondFactorColumns factor).secondFactorMethod
  secondFactorSecret := patch.secondFactor.value.map fun factor =>
    (toSecondFactorColumns factor).secondFactorSecret
  secondFactorConfirmedAt := patch.secondFactor.value.map fun factor =>
    (toSecondFactorColumns factor).secondFactorConfirmedAt
  secondFactorLastStep := patch.secondFactor.value.map fun factor =>
    (toSecondFactorColumns factor).secondFactorLastStep
  secondFactorRecoveryCodes := patch.secondFactor.value.map fun factor =>
    (toSecondFactorColumns factor).secondFactorRecoveryCodes
  avatarId := patch.avatar.value.map fun avatar => (toAvatarColumns avatar).avatarId
  avatarUpdatedAt := patch.avatar.value.map fun avatar => (toAvatarColumns avatar).avatarUpdatedAt

/-- A row updated: the columns named, and the version raised. -/
def UserRow.update (row : UserRow) (set : UserSet) : UserRow :=
  { row with
    updatedAt := set.updatedAt
    schemaVersion := overwritten row.schemaVersion set.schemaVersion
    active := overwritten row.active set.active
    fields := overwritten row.fields set.fields
    logins := overwritten row.logins set.logins
    emailVerifiedAt := overwritten row.emailVerifiedAt set.emailVerifiedAt
    passwordHash := overwritten row.passwordHash set.passwordHash
    passwordUpdatedAt := overwritten row.passwordUpdatedAt set.passwordUpdatedAt
    secondFactorMethod := overwritten row.secondFactorMethod set.secondFactorMethod
    secondFactorSecret := overwritten row.secondFactorSecret set.secondFactorSecret
    secondFactorConfirmedAt := overwritten row.secondFactorConfirmedAt set.secondFactorConfirmedAt
    secondFactorLastStep := overwritten row.secondFactorLastStep set.secondFactorLastStep
    secondFactorRecoveryCodes :=
      overwritten row.secondFactorRecoveryCodes set.secondFactorRecoveryCodes
    avatarId := overwritten row.avatarId set.avatarId
    avatarUpdatedAt := overwritten row.avatarUpdatedAt set.avatarUpdatedAt
    version := row.version + 1 }

def UserRow.password (row : UserRow) : Option PasswordRecord := do
  some ⟨← row.passwordHash, ← row.passwordUpdatedAt⟩

def UserRow.secondFactor (row : UserRow) : Option SecondFactorRecord := do
  some
    { method := ← row.secondFactorMethod
      secret := ← row.secondFactorSecret
      confirmedAt := row.secondFactorConfirmedAt
      lastStep := row.secondFactorLastStep
      recoveryCodes := row.secondFactorRecoveryCodes.getD [] }

def UserRow.avatar (row : UserRow) : Option AvatarRecord := do
  some ⟨← row.avatarId, ← row.avatarUpdatedAt⟩

def toUser (row : UserRow) : UserRecord where
  id := row.id
  type := row.type
  schemaVersion := row.schemaVersion
  active := row.active
  fields := row.fields
  logins := row.logins
  password := row.password
  secondFactor := row.secondFactor
  avatar := row.avatar
  emailVerifiedAt := row.emailVerifiedAt
  version := row.version
  createdAt := row.createdAt
  updatedAt := row.updatedAt

/-! ### What is read back -/

theorem password_row (record : UserRecord) : (toUserRow record).password = record.password := by
  rw [UserRow.password, toUserRow]
  cases record.password <;> rfl

/-- **No codes are read back as none.** -/
theorem recoveryCodes_row (factor : SecondFactorRecord) :
    (toSecondFactorColumns (some factor)).secondFactorRecoveryCodes.getD [] =
      factor.recoveryCodes := by
  rw [toSecondFactorColumns]
  dsimp only [Option.map_some, Option.getD_some]
  split
  case isTrue h => exact (List.length_eq_zero_iff.mp h).symm
  case isFalse => rfl

theorem secondFactor_row (record : UserRecord) :
    (toUserRow record).secondFactor = record.secondFactor := by
  rw [UserRow.secondFactor, toUserRow]
  cases record.secondFactor with
  | none => rfl
  | some factor =>
    change some { factor with recoveryCodes := _ } = some factor
    rw [recoveryCodes_row]

theorem avatar_row (record : UserRecord) : (toUserRow record).avatar = record.avatar := by
  rw [UserRow.avatar, toUserRow]
  cases record.avatar <;> rfl

/-- **A row of a record reads back as it.** -/
theorem toUser_row (record : UserRecord) : toUser (toUserRow record) = record := by
  rw [toUser, password_row, secondFactor_row, avatar_row]
  rfl

/-- A row with a patch's columns is the row of the record the patch makes. -/
theorem update_row (record : UserRecord) (patch : UserPatch) :
    (toUserRow record).update (toUserSet patch) = toUserRow (applyPatch record patch) := by
  simp only [UserRow.update, toUserRow, toUserSet, applyPatch, overwritten_value, UserRow.mk.injEq,
    true_and, and_true]
  exact ⟨overwritten_map (Option.map PasswordRecord.hash) _ _,
    overwritten_map (Option.map PasswordRecord.updatedAt) _ _,
    overwritten_map (fun factor => (toSecondFactorColumns factor).secondFactorMethod) _ _,
    overwritten_map (fun factor => (toSecondFactorColumns factor).secondFactorSecret) _ _,
    overwritten_map (fun factor => (toSecondFactorColumns factor).secondFactorConfirmedAt) _ _,
    overwritten_map (fun factor => (toSecondFactorColumns factor).secondFactorLastStep) _ _,
    overwritten_map (fun factor => (toSecondFactorColumns factor).secondFactorRecoveryCodes) _ _,
    overwritten_map (fun avatar => (toAvatarColumns avatar).avatarId) _ _,
    overwritten_map (fun avatar => (toAvatarColumns avatar).avatarUpdatedAt) _ _⟩

end Drizzle

/-! ## A document -/

namespace Mongo

/-- A second factor in a document: one written before there were codes has none. -/
structure SecondFactorDocument where
  method : Str
  secret : Str
  confirmedAt : Option Time
  lastStep : Option ℕ
  recoveryCodes : Option (List Str)

/-- A user's document: a field that may be left out is `none`. -/
structure UserDocument where
  _id : Str
  type : Str
  schemaVersion : Str
  active : Bool
  fields : Json
  logins : List Str
  password : Option PasswordRecord
  secondFactor : Option (Option SecondFactorDocument)
  avatar : Option (Option AvatarRecord)
  emailVerifiedAt : Option Time
  version : ℕ
  createdAt : Time
  updatedAt : Time

/-- What `$set` names. -/
structure UserSet where
  updatedAt : Time
  schemaVersion : Option Str
  active : Option Bool
  fields : Option Json
  logins : Option (List Str)
  password : Option (Option PasswordRecord)
  secondFactor : Option (Option SecondFactorDocument)
  avatar : Option (Option AvatarRecord)
  emailVerifiedAt : Option (Option Time)

/-- A second factor as it is cloned. -/
def SecondFactorDocument.of (factor : SecondFactorRecord) : SecondFactorDocument :=
  { factor with recoveryCodes := some factor.recoveryCodes }

def toUserDocument (record : UserRecord) : UserDocument where
  _id := record.id
  type := record.type
  schemaVersion := record.schemaVersion
  active := record.active
  fields := record.fields
  logins := record.logins
  password := record.password
  secondFactor := some (record.secondFactor.map .of)
  avatar := record.avatar.map some
  emailVerifiedAt := record.emailVerifiedAt
  version := record.version
  createdAt := record.createdAt
  updatedAt := record.updatedAt

/-- The fields a patch names. -/
def toUserSet (patch : UserPatch) : UserSet where
  updatedAt := patch.updatedAt
  schemaVersion := patch.schemaVersion.value
  active := patch.active.value
  fields := patch.fields.value
  logins := patch.logins.value
  password := patch.password.value
  secondFactor := patch.secondFactor.value.map fun factor => factor.map .of
  avatar := patch.avatar.value
  emailVerifiedAt := patch.emailVerifiedAt.value

/-- `{ $set, $inc: { version: 1 } }`. -/
def UserDocument.update (document : UserDocument) (set : UserSet) : UserDocument :=
  { document with
    updatedAt := set.updatedAt
    schemaVersion := overwritten document.schemaVersion set.schemaVersion
    active := overwritten document.active set.active
    fields := overwritten document.fields set.fields
    logins := overwritten document.logins set.logins
    password := overwritten document.password set.password
    secondFactor := set.secondFactor.or document.secondFactor
    avatar := set.avatar.or document.avatar
    emailVerifiedAt := overwritten document.emailVerifiedAt set.emailVerifiedAt
    version := document.version + 1 }

def toUser (document : UserDocument) : UserRecord where
  id := document._id
  type := document.type
  schemaVersion := document.schemaVersion
  active := document.active
  fields := document.fields
  logins := document.logins
  password := document.password
  secondFactor := document.secondFactor.join.map fun factor =>
    { factor with recoveryCodes := factor.recoveryCodes.getD [] }
  avatar := document.avatar.join
  emailVerifiedAt := document.emailVerifiedAt
  version := document.version
  createdAt := document.createdAt
  updatedAt := document.updatedAt

theorem secondFactor_document (factor : Option SecondFactorRecord) :
    ((factor.map SecondFactorDocument.of).map fun factor =>
      ({ factor with recoveryCodes := factor.recoveryCodes.getD [] } : SecondFactorRecord)) =
      factor := by
  cases factor <;> rfl

/-- **A document of a record reads back as it.** -/
theorem toUser_document (record : UserRecord) : toUser (toUserDocument record) = record := by
  have havatar : (record.avatar.map some).join = record.avatar := by
    cases record.avatar <;> rfl
  simp only [toUser, toUserDocument, Option.join_some, secondFactor_document, havatar]

/-- **A patch's fields set, the document reads back as the record the patch makes.** -/
theorem toUser_set (record : UserRecord) (patch : UserPatch) :
    toUser ((toUserDocument record).update (toUserSet patch)) = applyPatch record patch := by
  have hfactor : ((toUserSet patch).secondFactor.or (toUserDocument record).secondFactor).join =
      (patch.secondFactor.or record.secondFactor).map .of := by
    rw [toUserSet, toUserDocument]
    cases patch.secondFactor <;> rfl
  have havatar : ((toUserSet patch).avatar.or (toUserDocument record).avatar).join =
      patch.avatar.or record.avatar := by
    rw [toUserSet, toUserDocument]
    cases patch.avatar with
    | set avatar => rfl
    | absent => cases record.avatar <;> rfl
    | undefined => cases record.avatar <;> rfl
  rw [toUser, UserDocument.update, hfactor, havatar, secondFactor_document]
  rfl

end Mongo

/-- **Every store applies a patch alike**, and reads back what it was given. -/
theorem stores_patch_alike (record : UserRecord) (patch : UserPatch) :
    Drizzle.toUser ((Drizzle.toUserRow record).update (Drizzle.toUserSet patch)) =
        applyPatch record patch ∧
      Mongo.toUser ((Mongo.toUserDocument record).update (Mongo.toUserSet patch)) =
        applyPatch record patch ∧
      Drizzle.toUser (Drizzle.toUserRow record) = record ∧
      Mongo.toUser (Mongo.toUserDocument record) = record := by
  refine ⟨?_, Mongo.toUser_set record patch, Drizzle.toUser_row record,
    Mongo.toUser_document record⟩
  rw [Drizzle.update_row, Drizzle.toUser_row]

end Janus.Stores
