import Janus.Permissions.Store

/-!
# Permissions/Walk — the walk behind `can()`

From an object, through its rules, to a subject: depth first, stopping at the first grant, and
granting nothing on a node already on its path.  The walk is sequential, so the path is an argument:
what a call added to it, the call takes off when it ends.
-/

namespace Janus.Permissions

open Js Insertion

variable {Ctx : Type}

/-- An object on the walk: its entity, and its data when the caller passed it. -/
structure Node where
  entity : Entity
  data : Option Record

/-- One check: its model, its store, its context, and the depth it may reach. -/
structure Walk (Ctx : Type) where
  model : ResolvedModel Ctx
  store : RelationStore
  maxDepth : ℕ
  ctx : Option Ctx
  question : Str

/-- The id a `fromField` reads, or `none` for nobody — an id no store can keep included.  A missing
field is the caller's bug. -/
def fieldOf (node : Node) (field what : Str) : Except Failure (Option Str) :=
  match node.data with
  | none => throw <| .typeError <|
    js "can: " ++ what ++ js " reads " ++ field ++ js " from an object nobody passed"
  | some data =>
    match data.field field with
    | .null => pure none
    | .str value => pure (if isStorable value then some value else none)
    | .undefined => throw <| .typeError <| js "can: " ++ what ++ js " reads " ++ field ++
      js ", which the object does not carry — pass the loaded object, spread"
    | .other _ => throw <| .typeError <| js "can: " ++ what ++ js " reads " ++ field ++
      js ", which the object holds as something other than a string id"

namespace Walk

variable (w : Walk Ctx)

/-- The condition, run on the caller's `ctx`.  Its absence is a caller's bug, not a denial. -/
def passes (test : Ctx → Except Failure Bool) (type : ResolvedObjectType Ctx) (name : Str) :
    Except Failure Bool :=
  match w.ctx with
  | some ctx => test ctx
  | none => throw <| .typeError <| js "can: " ++ type.name ++ js "." ++ name ++
    js " reaches a condition, and no ctx was passed — pass \x7b ctx \x7d"

/-- Whether a rule's condition lets it grant: one without a condition always does. -/
def tested (rule : ResolvedRule Ctx) (type : ResolvedObjectType Ctx) (name : Str) :
    Except Failure Bool :=
  match rule.test with
  | some test => w.passes test type name
  | none => pure true

/-- The objects an arrow through `relation` reaches from `node`. -/
def targets (type : ResolvedObjectType Ctx) (node : Node) (relation : Str) :
    Except Failure (List Node) :=
  match get type.relations relation with
  | none => pure []
  | some (.fromField field subject _) => do
    match ← fieldOf node field (type.name ++ js "." ++ relation) with
    | none => pure []
    | some id => pure [⟨⟨subject, id⟩, none⟩]
  | some (.stored holders) => do
    let entities ← w.store.findEntities node.entity relation
    pure <| (entities.filter fun e => admits holders (.entity e)).map fun e => ⟨e, none⟩

section Step

variable (holds : Node → Str → ℕ → Except Failure Bool) (subject : Subject)

/-- Whether the id a field read is the subject's, and the subject no set. -/
def isNamed (subject : Subject) (subjectType : Str) (id : Option Str) : Bool :=
  match id, subject with
  | some id, .entity e => e.type = subjectType ∧ e.id = id
  | _, _ => false

/-- Whether a tuple names the subject, on a relation that admits it: what the model does not admit
grants nothing, however it was stored. -/
def direct (holders : List Holder) (node : Node) (name : Str) : Except Failure Bool :=
  if admits holders subject then w.store.has ⟨node.entity, name, subject⟩ else pure false

/-- Whether `subject` holds a relation on `node`, when it holds names by `holds`. -/
def relation (type : ResolvedObjectType Ctx) (node : Node) (name : Str) (depth : ℕ) :
    Except Failure Bool :=
  match get type.relations name with
  | none => pure false
  | some (.fromField field subjectType _) => do
    pure (isNamed subject subjectType (← fieldOf node field (type.name ++ js "." ++ name)))
  | some (.stored holders) => do
    if ← w.direct subject holders node name then pure true
    else
      (← w.store.findSubjectSets node.entity name).anyM fun set =>
        if admits holders (.set set) then holds ⟨set.toEntity, none⟩ set.relation (depth + 1)
        else pure false

/-- Whether `subject` holds what a rule refers to. -/
def follow (type : ResolvedObjectType Ctx) (node : Node) (depth : ℕ) :
    RuleRef → Except Failure Bool
  | .name other => holds node other depth
  | .arrow relation target => do
    (← w.targets type node relation).anyM fun node => holds node target (depth + 1)

/-- Whether one rule of a permission grants it. -/
def rule (type : ResolvedObjectType Ctx) (node : Node) (name : Str) (depth : ℕ)
    (rule : ResolvedRule Ctx) : Except Failure Bool := do
  if !(← w.tested rule type name) then pure false
  else w.follow holds type node depth rule.ref

/-- Whether `subject` holds a permission on `node`, when it holds names by `holds`. -/
def permission (type : ResolvedObjectType Ctx) (node : Node) (name : Str) (depth : ℕ) :
    Except Failure Bool :=
  ((get type.permissions name).getD []).anyM (w.rule holds type node name depth)

end Step

/-- Whether `subject` holds `name` — a relation or a permission — on `node`. -/
def holds (subject : Subject) : ℕ → List Str → Node → Str → ℕ → Except Failure Bool
  | 0, _, _, _, _ => throw .outOfFuel
  | fuel + 1, path, node, name, depth =>
    if w.maxDepth < depth then
      throw <| .permissionDepth (js "can: checking " ++ w.question ++ js " crossed more than " ++
        js (toString w.maxDepth) ++ js " relations without an answer") w.question w.maxDepth
    else
      let key := nodeKey node.entity name
      -- A cycle in the data: this branch grants nothing, and it is not an error.
      if key ∈ path then pure false
      else
        -- A stored tuple naming a type the model no longer declares grants nothing.
        match get w.model.types node.entity.type with
        | none => pure false
        | some type =>
          let inner := holds subject fuel (key :: path)
          if (get type.permissions name).isSome then w.permission inner type node name depth
          else w.relation inner subject type node name depth

end Walk

end Janus.Permissions
