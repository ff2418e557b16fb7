import Janus.Auth.SignIn

/-!
# Auth/Avatar — the image a user points at

Only the id the application stored it under is kept, and only the event of the write that replaces
it tells which image to delete.  The id the user already has is written over nothing.
-/

namespace Janus.Auth

open Js Insertion Calls

/-! ## A write that may be none -/

/-- One write that follows a read, under the version read; with no patch, nothing is written and the
record as read is the answer. -/
def writeUserIf {α : Type} (user : Str) (type : ResolvedType) (ifVersion : Option ℕ) (where_ : Str)
    (patchOf : UserRecord → Time → Flow (Option Patch × α)) : Flow (UserRecord × α) := do
  let record ← getRecord user type.name where_
  match ifVersion.filter (· ≠ record.version) with
  | some expected => Prog.fail (versionMoved where_ user expected record.version)
  | none => do
    let now ← call .now
    let (patch, noted) ← patchOf record now
    match patch with
    | none => pure (record, noted)
    | some patch => do
      let written ← updateUser record.id (patch.updating now) record.version
      pure (written, noted)

/-- A write that always has a patch. -/
theorem writeUser_eq {α : Type} (user : Str) (type : ResolvedType) (ifVersion : Option ℕ)
    (where_ : Str)
    (patchOf : UserRecord → Time → Flow (Patch × α)) :
    writeUser user type ifVersion where_ patchOf =
      writeUserIf user type ifVersion where_ fun record now =>
        (fun (patch, noted) => (some patch, noted)) <$> patchOf record now := by
  refine congrArg (Prog.bind _) (funext fun record => ?_)
  cases ifVersion.filter (· ≠ record.version) with
  | some expected => rfl
  | none =>
    refine congrArg (Prog.bind _) (funext fun now => Eq.symm ?_)
    exact Prog.bind_assoc (patchOf record now) _ _

/-! ## Setting it -/

/-- The longest avatar id stored. -/
def avatarIdMax : ℕ := 512

/-- The id `avatar.set` was given, or `AVATAR_ID_INVALID`: only what every store can keep. -/
def avatarIdOf (avatar : Arg) (where_ : Str) : Except Failure Str :=
  let id := match avatar with
    | .record avatar => avatar.field (js "id")
    | _ => .undefined
  match id.asString.filter fun id => id ≠ [] ∧ id.length ≤ avatarIdMax ∧ isStorable id with
  | some id => pure id
  | none => throw <| .janus .avatarIdInvalid
    (where_ ++ js ": the avatar id must be a non-empty string of at most " ++ decimal avatarIdMax ++
      js " characters that every store can keep")
    { operation := where_ }

/-- Points the user at the image: a different id is told with the one it replaced. -/
def setAvatar (ctx : Context) (type : ResolvedType) (user : UserRef) (avatar : Arg)
    (ifVersion : Option ℕ) (where_ : Str) : Flow User := do
  let id ← Prog.done (avatarIdOf avatar where_)
  let (written, changed) ← writeUserIf (idOf user) type ifVersion where_ fun record now => do
    let former := record.avatar.map (·.id)
    if former = some id then pure (none, none)
    else pure (some { avatar := some (some ⟨id, now⟩) }, some former)
  match changed with
  | some former => do
    emit ctx (.avatarChanged former) written written.updatedAt
    pure (toUser written)
  | none => pure (toUser written)

/-- Clears the user's avatar: one who had one is told of with the id it had. -/
def removeAvatar (ctx : Context) (type : ResolvedType) (user : UserRef) (ifVersion : Option ℕ)
    (where_ : Str) : Flow User := do
  let (written, former) ← writeUserIf (idOf user) type ifVersion where_ fun record _ =>
    match record.avatar.map (·.id) with
    | some former => pure (some { avatar := some none }, some former)
    | none => pure (none, none)
  match former with
  | some former => do
    emit ctx (.avatarRemoved (some former)) written written.updatedAt
    pure (toUser written)
  | none => pure (toUser written)

/-! ## Of whichever type the user has -/

/-- The type of a user given by id alone: one of a type not configured is no user. -/
def typeOf (ctx : Context) (user : UserRef) (where_ : Str) : Flow ResolvedType := do
  let record ← getRecord (idOf user) none where_
  match get ctx.config.types record.type with
  | some type => pure type
  | none => Prog.fail (notFound where_ (idOf user) none)

/-- `avatar.set`, of one type or of whichever the user has: a refused id reaches no store. -/
def avatarSet (ctx : Context) (asked : Option ResolvedType) (user : UserRef) (avatar : Arg)
    (ifVersion : Option ℕ) (at_ : At) : Flow User :=
  match asked with
  | some type => setAvatar ctx type user avatar ifVersion (at_ (js "avatar.set"))
  | none => do
    let _ ← Prog.done (avatarIdOf avatar (js "avatar.set"))
    let type ← typeOf ctx user (js "avatar.set")
    setAvatar ctx type user avatar ifVersion (js "avatar.set")

/-- `avatar.remove`, likewise. -/
def avatarRemove (ctx : Context) (asked : Option ResolvedType) (user : UserRef)
    (ifVersion : Option ℕ)
    (at_ : At) : Flow User :=
  match asked with
  | some type => removeAvatar ctx type user ifVersion (at_ (js "avatar.remove"))
  | none => do
    let type ← typeOf ctx user (js "avatar.remove")
    removeAvatar ctx type user ifVersion (js "avatar.remove")

end Janus.Auth
