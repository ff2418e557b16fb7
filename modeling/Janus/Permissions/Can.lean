import Janus.Permissions.Input
import Janus.Permissions.Walk

/-!
# Permissions/Can — `can()`

The walk, after the refusals of what a caller passed.
-/

namespace Janus.Permissions

open Js Insertion

variable {Ctx : Type}

/-- What `permissions()` binds once: the model, the store, and how many relations a walk may
cross. -/
structure BoundModel (Ctx : Type) where
  model : ResolvedModel Ctx
  store : RelationStore
  maxDepth : ℕ

/-- Neither a user nor anything else. -/
def isAnonymous : Arg → Bool
  | .undefined | .null => true
  | _ => false

/-- The most permissions one type declares. -/
def mostPermissions (model : ResolvedModel Ctx) : ℕ :=
  (model.types.map fun e => e.2.permissions.length).foldr max 0

/-- Calls enough for any walk: between two relations crossed, each is one more permission of the
same object. -/
def walkFuel (model : ResolvedModel Ctx) (maxDepth : ℕ) : ℕ :=
  (maxDepth + 2) * (mostPermissions model + 2)

/-- Whether `subject` holds `permission` on `object`: `false` for anonymous or an id no store can
keep, before any store call. -/
def can (bound : BoundModel Ctx) (subject : Arg) (permission : Str) (object : Arg)
    (ctx : Option Ctx) : Except Failure Bool :=
  if isAnonymous subject then pure false
  else do
    let root ← objectOf bound.model object (js "can")
    let type ← typeOf bound.model root.type (js "can")
    if !type.declares permission then
      throw <| .typeError <| js "can: \"" ++ permission ++
        js "\" is not a relation or a permission of " ++ type.name
    else do
      let who ← subjectOf bound.model subject (js "can")
      if !isStorable root.id || !isStorable who.id then pure false
      else
        let walk : Walk Ctx := ⟨bound.model, bound.store, bound.maxDepth, ctx,
          type.name ++ js "#" ++ permission⟩
        walk.holds who (walkFuel bound.model bound.maxDepth) []
          ⟨⟨root.type, root.id⟩, some root.data⟩ permission 0

end Janus.Permissions
