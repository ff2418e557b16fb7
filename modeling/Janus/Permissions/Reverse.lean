import Janus.Permissions.Store
import Janus.Machinery.Rounds

/-!
# Permissions/Reverse — one `list()`, found backwards

From the subject to the tuples naming it, through the sets and arrows the model declares, to the
objects.  A name met again on the path being evaluated answers what the previous round found; rounds
repeat until none adds an id.
-/

namespace Janus.Permissions

open Js Insertion Paging Rounds

variable {Ctx : Type}

/-- The most a page may hold, whatever the caller asked for. -/
def MAX_PAGE_SIZE : ℕ := 100

/-- One `list()`.  `pages` is how many pages of one lookup the model reads before it gives up. -/
structure Reverse (Ctx : Type) where
  model : ResolvedModel Ctx
  store : RelationStore
  maxDepth : ℕ
  ctx : Option Ctx
  subject : Subject
  question : Str
  pages : ℕ

/-- The key of a type's name: `type#name`. -/
def typeKey (k : Str × Str) : Str := k.1 ++ (35 : CodeUnit) :: k.2

namespace Reverse

variable (r : Reverse Ctx)

/-- The condition, run on the caller's `ctx`, as for `can()`. -/
def passes (test : Ctx → Except Failure Bool) (type : ResolvedObjectType Ctx) (name : Str) :
    Except Failure Bool :=
  match r.ctx with
  | some ctx => test ctx
  | none => throw <| .typeError <| js "list: " ++ type.name ++ js "." ++ name ++
    js " reaches a condition, and no ctx was passed — pass \x7b ctx \x7d"

/-- Whether a rule's condition lets it grant: one without a condition always does. -/
def tested (rule : ResolvedRule Ctx) (type : ResolvedObjectType Ctx) (name : Str) :
    Except Failure Bool :=
  match rule.test with
  | some test => r.passes test type name
  | none => pure true

/-- Every id of every page of `findObjects`. -/
def holding (type relation : Str) (subject : Subject) : Except Failure (List Str) :=
  drain (fun after => r.store.findObjects ⟨type, relation, subject, after, MAX_PAGE_SIZE⟩)
    .outOfFuel r.pages none

/-- The refusal of a relation `list()` cannot reach through. -/
def noLookup (type : ResolvedObjectType Ctx) (relation field subject : Str) : Failure :=
  .typeError <| js "list: " ++ type.name ++ js "." ++ relation ++
    js " is read from a field, and has no lookup to find the " ++ type.name ++
    js "s naming a subject of type '" ++ subject ++ js "' — fromField('" ++ field ++ js "', '" ++
    subject ++ js "', \x7b lookup \x7d)"

/-- The refusal of a lookup that answers anything but an array of ids. -/
def notIds (type : ResolvedObjectType Ctx) (relation : Str) : Failure :=
  .typeError <| js "list: the lookup of " ++ type.name ++ js "." ++ relation ++
    js " must answer an array of ids"

/-- The objects whose field names `id`, from the `fromField`'s lookup.  An id no store can keep is
held by nobody, as `can()` answers it. -/
def lookup (type : ResolvedObjectType Ctx) (relation id : Str) : Except Failure (List Str) :=
  match get type.relations relation with
  | some (.fromField _ _ (some lookup)) => do
    match (← lookup id).bind fun values => values.mapM Value.asString with
    | some ids => pure (ids.filter isStorable)
    | none => throw (notIds type relation)
  | some (.fromField field subject none) => throw (noLookup type relation field subject)
  | _ => throw (noLookup type relation relation (js "subject"))

/-- The objects a tuple names the subject on.  One counts only when the model admits the subject
here. -/
def direct (holders : List Holder) (type relation : Str) : Except Failure (List Str) :=
  if admits holders r.subject then r.holding type relation r.subject else pure []

section Step

variable (reach : Str × Str → Round Str Str → Except Failure (List Str × Round Str Str))

/-- One holder of a relation: the objects its sets, already reached, hold it on. -/
def throughSet (type : ResolvedObjectType Ctx) (name : Str) :
    List Str × Round Str Str → Holder → Except Failure (List Str × Round Str Str)
  | (found, round), .type _ => pure (found, round)
  | (found, round), .set holder relation => do
    let (reached, round) ← reach (holder, relation) round
    let found ← images (fun id => r.holding type.name name (.set ⟨⟨holder, id⟩, relation⟩))
      reached found
    pure (found, round)

def relation (type : ResolvedObjectType Ctx) (name : Str) (round : Round Str Str) :
    Except Failure (List Str × Round Str Str) :=
  match get type.relations name with
  | none => pure ([], round)
  | some (.fromField _ subjectType _) =>
    match r.subject with
    | .set _ => pure ([], round)
    | .entity e =>
      if e.type = subjectType then do pure (addAll [] (← lookup type name e.id), round)
      else pure ([], round)
  | some (.stored holders) => do
    let direct ← r.direct holders type.name name
    holders.foldlM (r.throughSet reach type name) (addAll [] direct, round)

/-- One holder of an arrow's relation: an arrow follows entities of an object type. -/
def throughEntity (type : ResolvedObjectType Ctx) (relation target : Str) :
    List Str × Round Str Str → Holder → Except Failure (List Str × Round Str Str)
  | (found, round), .set .. => pure (found, round)
  | (found, round), .type holder =>
    if (get r.model.types holder).isSome then do
      let (reached, round) ← reach (holder, target) round
      let found ← images (fun id => r.holding type.name relation (.entity ⟨holder, id⟩))
        reached found
      pure (found, round)
    else pure (found, round)

/-- The objects of `type` whose `relation` reaches an object on which the subject holds `target`. -/
def arrow (type : ResolvedObjectType Ctx) (relation target : Str) (round : Round Str Str) :
    Except Failure (List Str × Round Str Str) :=
  match get type.relations relation with
  | none => pure ([], round)
  | some (.fromField _ subject _) => do
    let (reached, round) ← reach (subject, target) round
    let found ← images (lookup type relation) reached []
    pure (found, round)
  | some (.stored holders) => holders.foldlM (r.throughEntity reach type relation target) ([], round)

/-- The objects what a rule refers to reaches. -/
def follow (type : ResolvedObjectType Ctx) (ref : RuleRef) (round : Round Str Str) :
    Except Failure (List Str × Round Str Str) :=
  match ref with
  | .name other => reach (type.name, other) round
  | .arrow relation target => r.arrow reach type relation target round

/-- The objects one rule of a permission reaches, added to what was found. -/
def rule (type : ResolvedObjectType Ctx) (name : Str) :
    List Str × Round Str Str → ResolvedRule Ctx → Except Failure (List Str × Round Str Str)
  | (found, round), rule => do
    if !(← r.tested rule type name) then pure (found, round)
    else
      let (reached, round) ← r.follow reach type rule.ref round
      pure (addAll found reached, round)

def permission (type : ResolvedObjectType Ctx) (name : Str) (round : Round Str Str) :
    Except Failure (List Str × Round Str Str) :=
  ((get type.permissions name).getD []).foldlM (r.rule reach type name) ([], round)

end Step

/-- The ids of the objects of a type on which the subject holds a name, in this round. -/
def reach (previous : List (Str × List Str)) :
    ℕ → List Str → Str × Str → Round Str Str → Except Failure (List Str × Round Str Str)
  | 0, _, _, _ => throw .outOfFuel
  | fuel + 1, path, k, round =>
    match get round.current (typeKey k) with
    | some done => pure (done, round)
    | none =>
      if typeKey k ∈ path then
        pure ((get previous (typeKey k)).getD [], { round with looped := true })
      else
        match get r.model.types k.1 with
        | none => pure ([], round)
        | some type => do
          let inner := reach previous fuel (typeKey k :: path)
          let (found, round) ←
            if (get type.permissions k.2).isSome then r.permission inner type k.2 round
            else r.relation inner type k.2 round
          pure (found, { round with current := put round.current (typeKey k) found })

/-- Calls enough for any round: each goes into one more name. -/
def fuel : ℕ :=
  (r.model.types.map fun e => e.2.relations.length + e.2.permissions.length).sum + 1

/-- Rounds until one met no loop, or found what the previous one did. -/
def rounds (k : Str × Str) : ℕ → List (Str × List Str) → Except Failure (List Str)
  | 0, _ => throw <| .permissionDepth (js "list: listing " ++ r.question ++ js " crossed more than " ++
      js (toString r.maxDepth) ++ js " relations without an answer") r.question r.maxDepth
  | n + 1, previous => do
    let (found, round) ← r.reach previous r.fuel [] k ⟨[], false⟩
    if !round.looped || same previous round.current then pure found
    else rounds k n round.current

/-- Every object of `type` on which the subject holds `name`. -/
def objects (type name : Str) : Except Failure (List Str) :=
  r.rounds (type, name) (r.maxDepth + 1) []

end Reverse

end Janus.Permissions
