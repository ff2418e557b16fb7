import Janus.Machinery.Traces
import Janus.Graphql.Directives

/-!
# Graphql/Guard — what runs before a guarded field's resolver

The user, then the requirement: its user types, the session's freshness, then each `@permission` in
order.  Whatever `authenticate`, loaders, conditions and `can` answer or reject, the resolver is
called only once everything written was met (`guarded_closed`): a guard fails closed.
-/

namespace Janus.Graphql

open Js Insertion Calls

/-! ## What a guard asks -/

/-- A refusal: a denial, a session too old, a wiring mistake, or whatever was rejected with. -/
inductive Refusal (E : Type) where
  | denied (code : DenialCode)
  | stepUpRequired (userId : Str)
  | typeError (message : Str)
  | rejected (e : E)

structure User where
  type : Str
  id : Str
deriving DecidableEq

structure Session where
  authenticatedAt : ℤ
  userId : Str

/-- The object as `can()` reads it: a type and an id, over the object's own fields when it has any.
-/
structure ObjectLike where
  type : Str
  id : Str
  data : Option Data

/-- What a loader answers: no object, an object, or something else, by its `typeof`. -/
inductive Loaded where
  | null
  | object (o : Data)
  | other (typeOf : Str)

/-- What a guard asks of the request, the wiring and the checks, and the resolvers it guards.
`first` is which of several rejections came first. -/
inductive Ask (V E : Type) where
  | user
  | session
  | now
  | load (type id : Str)
  | condition (type : Str) (object : ObjectLike)
  | check (fresh : Bool) (user : User) (permission : Str) (object : ObjectLike) (ctx : Option V)
  | first (rejections : List (Refusal E))
  | resolve
  | subscribe

/-- What each may answer, a rejection included. -/
@[reducible] def Reply {V E : Type} : Ask V E → Type
  | .user => Except E (Option User)
  | .session => Except E (Option Session)
  | .now => ℤ
  | .load _ _ => Except E Loaded
  | .condition _ _ => Except E V
  | .check _ _ _ _ _ => Except E Bool
  | .first rejections => { e // e ∈ rejections }
  | .resolve | .subscribe => Unit

/-- What a guard does: it asks, one thing after the other. -/
abbrev Guard (V E : Type) := Prog (Ask V E) Reply (Refusal E)

/-- What was asked, each with its reply. -/
abbrev Asked (V E : Type) := List (Σ a : Ask V E, Reply a)

variable {V E : Type}

/-- One thing asked. -/
def await (a : Ask V E) : Guard V E (Reply a) := Prog.perform a

/-- `Promise.all`: every answer, or the rejection that came first. -/
def all {α : Type} (settled : List (Except (Refusal E) α)) : Guard V E (List α) :=
  match settled.filterMap fun | .error e => some e | .ok _ => none with
  | [] => pure (settled.filterMap fun | .ok a => some a | .error _ => none)
  | rejections => do
    let first ← await (.first rejections)
    Prog.fail first.val

/-! ## One `@permission` -/

/-- What the guard has in hand when it asks. -/
structure Asking where
  user : User
  parent : Data
  args : Data
  fresh : Bool

/-- Whether an id can name an object: no character of the notation, and one a store can keep. -/
def isNameable (id : Str) : Bool :=
  id ≠ [] && id.all (fun u => u ≠ 64 && u ≠ 35 && u ≠ 40 && u ≠ 41) && isStorable id

section Permission

variable (permission : PermissionCheck)

/-- The object `can()` is given for one target: `none` when there is none. -/
def objectOf (target : Target) : Guard V E (Except (Refusal E) (Option ObjectLike)) :=
  if !isNameable target.id then pure (.ok none)
  else
    match target.holder with
    | some holder => pure (.ok (some ⟨permission.type, target.id, some holder⟩))
    | none =>
      if !permission.load then pure (.ok (some ⟨permission.type, target.id, none⟩))
      else do
        match ← await (.load permission.type target.id) with
        | .error e => pure (.error (.rejected e))
        | .ok .null => pure (.ok none)
        | .ok (.other typeOf) =>
          pure (.error (.typeError (permission.label ++ js ": loaders." ++ permission.type ++
            js " answered " ++ typeOf ++ js " — answer the object, or null when there is none")))
        | .ok (.object o) => pure (.ok (some ⟨permission.type, target.id, some o⟩))

/-- The `ctx` of a check, when its permission reaches a condition. -/
def ctxOf (object : ObjectLike) : Guard V E (Except (Refusal E) (Option V)) :=
  if permission.condition then do
    match ← await (.condition permission.type object) with
    | .error e => pure (.error (.rejected e))
    | .ok ctx => pure (.ok (some ctx))
  else pure (.ok none)

/-- Whether the user holds the permission on one object. -/
def askCheck (asking : Asking) (question : ObjectLike × Except (Refusal E) (Option V)) :
    Guard V E (Except (Refusal E) Bool) :=
  match question.2 with
  | .error e => pure (.error e)
  | .ok ctx => do
    match ← await (.check asking.fresh asking.user permission.name question.1 ctx) with
    | .error e => pure (.error (.rejected e))
    | .ok answer => pure (.ok answer)

/-- Refuses the request unless the user holds the permission on every object its `id:` names. -/
def enforcePermission (asking : Asking) : Guard V E Unit :=
  match targetsOf permission.path asking.parent asking.args with
  | none => Prog.fail (.denied .notFound)
  | some targets => do
    let settled ← Prog.each (objectOf permission) targets
    let objects ← all settled
    let found := objects.filterMap id
    if found.length < objects.length then Prog.fail (.denied .notFound)
    else do
      -- Every condition is asked before any check: a check waits for its own.
      let ctxs ← Prog.each (ctxOf permission) found
      let settled ← Prog.each (askCheck permission asking) (found.zip ctxs)
      let answers ← all settled
      if false ∈ answers then Prog.fail (.denied permission.onDeny) else pure ()

end Permission

/-! ## The requirement -/

/-- Refuses a session that is gone, or that proved who it is `maxAgeMs` ago or more. -/
def freshSession (maxAgeMs : ℤ) : Guard V E Unit := do
  match ← await .session with
  | .error e => Prog.fail (.rejected e)
  | .ok none => Prog.fail (.denied .unauthenticated)
  | .ok (some session) =>
    if maxAgeMs ≤ 0 then
      Prog.fail (.typeError (js "assertFresh: maxAge: a duration in milliseconds must be a finite " ++
        js "number above zero"))
    else do
      let now ← await .now
      if maxAgeMs ≤ now - session.authenticatedAt then
        Prog.fail (.stepUpRequired session.userId)
      else pure ()

/-- What a field was asked with: `ctx.janus`, when a plugin set it, and its `access`. -/
structure Resolving where
  parent : Data
  args : Data
  janus : Bool
  access : Bool
  fresh : Bool

def enforceAge : Option ℤ → Guard V E Unit
  | none => pure ()
  | some maxAgeMs => freshSession maxAgeMs

/-- In order, one at a time: the first that denies answers, and the ones after it are never asked.
-/
def enforcePermissions (permissions : List PermissionCheck) (access : Bool) (asking : Asking) :
    Guard V E Unit :=
  match permissions with
  | [] => pure ()
  | first :: _ =>
    if !access then
      Prog.fail (.typeError (first.label ++
        js ": ctx.janus.access is not set — pass \x7b access \x7d to useJanus()"))
    else do
      let _ ← Prog.each (fun permission => enforcePermission permission asking) permissions
      pure ()

/-- Refuses the request unless it meets `requirement`. -/
def enforce (requirement : Requirement) (resolving : Resolving) : Guard V E Unit :=
  if !resolving.janus then
    Prog.fail (.typeError (requirement.label ++
      js ": ctx.janus is not set — add useJanus(\x7b auth \x7d) to the plugins"))
  else do
    match ← await .user with
    | .error e => Prog.fail (.rejected e)
    | .ok none => Prog.fail (.denied .unauthenticated)
    | .ok (some user) =>
      if requirement.types.any (user.type ∉ ·) then Prog.fail (.denied .forbidden)
      else do
        enforceAge requirement.maxAgeMs
        enforcePermissions requirement.permissions resolving.access
          ⟨user, resolving.parent, resolving.args, resolving.fresh⟩

/-- `resolver`, asked only once `requirement` is met. -/
def guarded (resolver : Ask V E) (requirement : Requirement) (resolving : Resolving) :
    Guard V E Unit := do
  enforce requirement resolving
  let _ ← await resolver
  pure ()

/-- A field's resolvers, as the schema keeps them. -/
structure Resolvers (V E : Type) where
  resolve : Resolving → Guard V E Unit
  subscribe : Option (Resolving → Guard V E Unit)

/-- `resolver` alone. -/
def unguarded (resolver : Ask V E) (_ : Resolving) : Guard V E Unit := do
  let _ ← await resolver
  pure ()

/-- A field guarded: a subscription's freshness is checked when it subscribes. -/
def applyField (type : ObjectType) (field : Field) (known : List Str) (wiring : Wiring) :
    Build (Resolvers V E) := do
  match ← requirementOf (nameOf type field) field.args (readField type field) known wiring with
  | none =>
    pure
      { resolve := unguarded .resolve
        subscribe := if field.subscribes then some (unguarded .subscribe) else none }
  | some requirement =>
    pure <|
      if field.subscribes then
        { resolve := guarded .resolve { requirement with maxAgeMs := none }
          subscribe := some (guarded .subscribe requirement) }
      else
        { resolve := guarded .resolve requirement
          subscribe := none }

end Janus.Graphql
