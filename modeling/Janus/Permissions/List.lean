import Janus.Permissions.Can
import Janus.Permissions.Reverse

/-!
# Permissions/List — `list()`

The ids of the objects of a type on which a subject holds a permission, by pages: the walk run
backwards, after the refusals of what a caller passed.
-/

namespace Janus.Permissions

open Js Insertion Paging

variable {Ctx : Type}

/-- A `limit` a caller passed. -/
inductive LimitArg where
  | undefined
  | integer (n : ℤ)
  | other
deriving DecidableEq

/-- How many a page holds when the caller did not say. -/
def DEFAULT_PAGE_SIZE : ℕ := 20

/-- The limit a page will be given, from the limit a caller asked for. -/
def pageLimit (limit : LimitArg) (where_ : Str) : Except Failure ℕ :=
  match limit with
  | .undefined => pure DEFAULT_PAGE_SIZE
  | .integer n => if 1 ≤ n then pure (min n.toNat MAX_PAGE_SIZE) else refused
  | .other => refused
where
  refused : Except Failure ℕ := throw <| .typeError <|
    where_ ++ js ": limit must be an integer of at least 1, or absent"

/-- The cursor a caller passed. -/
def cursorOf (after : Value) : Except Failure (Option Str) :=
  match after with
  | .undefined | .null => pure none
  | .str cursor => pure (some cursor)
  | .other _ => throw (.typeError (js "list: after must be the nextCursor of a page, or null"))

/-- One page of the ids of the objects of `typeName` on which `subject` holds `permission`,
ascending; an empty page for anonymous, before any store call. -/
def list (bound : BoundModel Ctx) (pages : ℕ) (subject : Arg) (permission : Str) (typeName : Value)
    (ctx : Option Ctx) (after : Value) (limit : LimitArg) : Except Failure (Page Str) := do
  let limit ← pageLimit limit (js "list")
  let after ← cursorOf after
  if isAnonymous subject then pure ⟨[], none⟩
  else
    match typeName with
    | .str typeName => do
      let type ← typeOf bound.model typeName (js "list")
      if !type.declares permission then
        throw <| .typeError <| js "list: \"" ++ permission ++
          js "\" is not a relation or a permission of " ++ type.name
      else do
        let who ← subjectOf bound.model subject (js "list")
        -- A subject no store can keep holds nothing, and no store is asked.
        if !isStorable who.id then pure ⟨[], none⟩
        else do
          let reverse : Reverse Ctx := ⟨bound.model, bound.store, bound.maxDepth, ctx, who,
            type.name ++ js "#" ++ permission, pages⟩
          pure (pageOf (← reverse.objects type.name permission) after limit)
    | _ => throw (.typeError (js "list: the type must be an object type of the model"))

/-- Every page of `list()`, each asked for past the previous one's cursor. -/
def listAll (bound : BoundModel Ctx) (pages : ℕ) (subject : Arg) (permission : Str)
    (typeName : Value) (ctx : Option Ctx) (limit : LimitArg) (fuel : ℕ) :
    Except Failure (List Str) :=
  drain (fun after => list bound pages subject permission typeName ctx
    (after.elim .null .str) limit) .outOfFuel fuel none

end Janus.Permissions
