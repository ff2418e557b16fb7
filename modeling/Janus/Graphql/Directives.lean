import Janus.Machinery.Insertion
import Janus.Machinery.Outcome
import Janus.Graphql.Path

/-!
# Graphql/Directives — what the directives on one field add up to

Read from the field, its type, its interfaces and their fields of the same name; decided when the
schema is built.  What was written is never lost: a requirement admits no user type that some
`type:` leaves out, no session older than some `maxAge`, and asks every `@permission`
(`requirementOf_ok`).
-/

namespace Janus.Graphql

open Js Insertion

/-! ## What is written -/

inductive DenialCode where
  | unauthenticated
  | forbidden
  | notFound
deriving DecidableEq

/-- The arguments of one `@permission`. -/
structure PermissionArgs where
  name : Str
  type : Str
  id : Option Str
  onDeny : DenialCode

/-- What `getDirective` answers of one place, by directive: each one's arguments. -/
structure Written where
  authenticated : List (Option (List Str)) := []
  fresh : List ℤ := []
  permission : List PermissionArgs := []

/-- An interface: what is written on it, and on its fields. -/
structure InterfaceType where
  name : Str
  node : Written
  fields : List (Str × Written)

structure ObjectType where
  name : Str
  node : Written
  interfaces : List InterfaceType

/-- A field as the schema has it: what is written on it, its arguments, and whether it has a
`subscribe`. -/
structure Field where
  name : Str
  node : Written
  args : List Str
  subscribes : Bool

/-! ## Reading -/

structure AuthenticatedUse where
  where_ : Str
  types : Option (List Str)

structure FreshUse where
  where_ : Str
  maxAge : ℤ

structure PermissionUse extends PermissionArgs where
  where_ : Str
  onType : Bool

structure FieldDirectives where
  authenticated : List AuthenticatedUse
  fresh : List FreshUse
  permission : List PermissionUse

structure Located where
  where_ : Str
  onType : Bool
  node : Written

variable (type : ObjectType) (field : Field)

/-- `Type.field`. -/
def nameOf : Str := type.name ++ js "." ++ field.name

/-- The places whose directives apply, outermost first: the interfaces, the type, the interfaces'
fields, the field. -/
def locations : List Located :=
  type.interfaces.map (fun face => ⟨face.name, true, face.node⟩) ++
    [⟨type.name, true, type.node⟩] ++
    type.interfaces.filterMap (fun face =>
      (get face.fields field.name).map fun own =>
        ⟨face.name ++ js "." ++ field.name, false, own⟩) ++
    [⟨nameOf type field, false, field.node⟩]

/-- Everything written on one field's places. -/
def readField : FieldDirectives where
  authenticated := (locations type field).flatMap fun at_ =>
    at_.node.authenticated.map fun types => ⟨at_.where_, types⟩
  fresh := (locations type field).flatMap fun at_ =>
    at_.node.fresh.map fun maxAge => ⟨at_.where_, maxAge⟩
  permission := (locations type field).flatMap fun at_ =>
    at_.node.permission.map fun args => ⟨args, at_.where_, at_.onType⟩

/-! ## The permission model, as the schema reads it -/

/-- A relation: the holders a stored one lists, or a field. -/
inductive RelationDef where
  | fromField (field subject : Str)
  | holders (holders : List Str)
  | other

/-- A rule: a name or an arrow, or a `when()`. -/
inductive RuleDef where
  | text (rule : Str)
  | conditional

structure TypeDef where
  related : List (Str × RelationDef) := []
  permits : List (Str × List RuleDef) := []

/-- `access.model`. -/
structure ModelLike where
  types : List Str
  definition : List (Str × TypeDef)

namespace ModelLike

variable (model : ModelLike)

/-- A type's definition, empty for a type the definition has not. -/
def typeDef (type : Str) : TypeDef := (get model.definition type).getD {}

/-- What `can()` may be asked of a type. -/
def namesOf (type : Str) : List Str :=
  (model.typeDef type).related.map Prod.fst ++ (model.typeDef type).permits.map Prod.fst

/-- The fields a type's `fromField`s read. -/
def fieldsOf (type : Str) : List Str :=
  (model.typeDef type).related.filterMap fun relation =>
    match relation.2 with
    | .fromField field _ => some field
    | _ => none

/-- `rule.split('->')`. -/
def splitArrow : Str → List Str
  | [] => [[]]
  | [u] => [[u]]
  | u :: v :: rest =>
    if u = 45 ∧ v = 62 then [] :: splitArrow rest
    else
      match splitArrow (v :: rest) with
      | [] => [[u]]
      | part :: parts => (u :: part) :: parts

/-- The object types an arrow through a relation reaches. -/
def arrowTargets : Option RelationDef → List Str
  | some (.fromField _ subject) => [subject]
  | some (.holders holders) => holders.map fun holder => holder.takeWhile (· ≠ 35)
  | _ => []

/-- Whether one of a list does, each asked with what was seen so far. -/
def anySeen {α σ : Type} (f : α → σ → Bool × σ) : List α → σ → Bool × σ
  | [], seen => (false, seen)
  | a :: as, seen =>
    match f a seen with
    | (true, seen) => (true, seen)
    | (false, seen) => anySeen f as seen

/-- Whether a permission reaches a `when()`: through its rules, the names they name, and arrows. -/
def reachesFrom : ℕ → Str → Str → List Str → Bool × List Str
  | 0, _, _, seen => (false, seen)
  | fuel + 1, type, name, seen =>
    let key := type ++ js "." ++ name
    if key ∈ seen then (false, seen)
    else
      anySeen (fun rule seen =>
        match rule with
        | .conditional => (true, seen)
        | .text rule =>
          match splitArrow rule with
          | relation :: target :: _ =>
            anySeen (fun next seen => reachesFrom fuel next target seen)
              (arrowTargets (get (model.typeDef type).related relation)) seen
          | _ => reachesFrom fuel type rule seen)
        ((get (model.typeDef type).permits name).getD []) (key :: seen)

/-- The rules of every type: as many as a walk that repeats no name may follow, and one more. -/
def ruleCount : ℕ :=
  ((model.definition.flatMap fun type => type.2.permits.flatMap fun permit =>
    permit.2.flatMap fun _ => type.2.related.flatMap fun relation =>
      [()] ++ (arrowTargets (some relation.2)).map fun _ => ()).length) +
    (model.definition.flatMap fun type => type.2.permits.flatMap Prod.snd).length + 1

def reachesCondition (type name : Str) : Bool := (model.reachesFrom model.ruleCount type name []).1

end ModelLike

/-! ## Validating -/

/-- An entry of `loaders` or `conditions`. -/
inductive Entry where
  | function
  | other
deriving DecidableEq

/-- What `@permission` reads of the options: `access.model`, when `access` has one. -/
structure Wiring where
  model : Option ModelLike
  loaders : List (Str × Entry)
  conditions : List (Str × Entry)

/-- One `@permission`, as the guard asks it. -/
structure PermissionCheck where
  label : Str
  name : Str
  type : Str
  onDeny : DenialCode
  path : IdPath
  load : Bool
  condition : Bool

/-- What a field requires before its resolver runs. -/
structure Requirement where
  where_ : Str
  label : Str
  types : Option (List Str)
  maxAgeMs : Option ℤ
  permissions : List PermissionCheck

/-- `Query.me`, or `Record (read by Record.title)`. -/
def on (where_ field : Str) : Str :=
  if where_ = field then field else where_ ++ js " (read by " ++ field ++ js ")"

/-- `'a', 'b'`. -/
def quoted (names : List Str) : Str :=
  List.intercalate (js ", ") (names.map fun name => js "'" ++ name ++ js "'")

/-- A `TypeError` of the schema's build. -/
abbrev Build := Except Str

def PREFIX : Str := js "applyJanusDirectives()"

/-- The path a use reads its id from. -/
def PermissionUse.idText (use : PermissionUse) : Str :=
  use.id.getD (if use.onType then js "parent.id" else js "args.id")

section Validate

variable (field : Str) (use : PermissionUse) (wiring : Wiring)

/-- What a use is refused with. -/
def refusal (why : Str) : Str :=
  PREFIX ++ js ": @permission on " ++ on use.where_ field ++ js " " ++ why

def checkNames (model : ModelLike) : Build Unit :=
  if use.type ∉ model.types then
    throw <| refusal field use <| js "names the object type '" ++ use.type ++
      js "', which is not one of " ++ quoted model.types
  else if use.name ∉ model.namesOf use.type then
    throw <| refusal field use <| js "asks '" ++ use.name ++ js "', which " ++ use.type ++
      js " does not declare — it declares " ++ quoted (model.namesOf use.type)
  else pure ()

/-- Whether the check loads its object: never one the path itself holds. -/
def loaderOf (model : ModelLike) (path : IdPath) : Build Bool :=
  let load := get wiring.loaders use.type
  if load = some .other then
    throw <| refusal field use <| js "finds loaders." ++ use.type ++ js ", which is not a function"
  else if path.held then pure false
  else if load.isSome then pure true
  else if model.fieldsOf use.type ≠ [] then
    throw <| refusal field use <| js "reads the " ++ use.type ++ js "'s id from " ++ path.text ++
      js ", and " ++ use.type ++ js " reads " ++ quoted (model.fieldsOf use.type) ++
      js " of the object itself (fromField) — pass useJanus(\x7b loaders: \x7b " ++ use.type ++
      js ": (id, ctx) => … \x7d \x7d)"
  else pure false

/-- Whether the check answers a `ctx`: of a permission that reaches a `when()`. -/
def conditionOf (model : ModelLike) : Build Bool :=
  if !model.reachesCondition use.type use.name then pure false
  else if get wiring.conditions use.type ≠ some .function then
    throw <| refusal field use <| js "asks '" ++ use.name ++ js "' of " ++ use.type ++
      js ", which reaches a when() — pass useJanus(\x7b conditions: \x7b " ++ use.type ++
      js ": (object, ctx) => … \x7d \x7d)"
  else pure true

/-- `use`, checked. -/
def permissionCheckOf (args : List Str) : Build PermissionCheck :=
  match wiring.model with
  | none =>
    throw <| refusal field use <| js "needs the permissions() instance — pass useJanus(\x7b auth, access " ++
      js "\x7d), with access what permissions() answered"
  | some model => do
    checkNames field use model
    match parsePath use.idText with
    | none =>
      throw <| refusal field use <| js "reads its id from '" ++ use.idText ++
        js "', which is not args.<name> or parent.<name>"
    | some path =>
      let first := path.segments.head path.nonempty
      if path.root = .args ∧ first ∉ args then
        throw <| refusal field use <| js "reads args." ++ first ++ js ", and " ++ field ++
          js " takes no argument " ++ first ++
          (if use.id.isNone ∧ !use.onType then
            js " — name the id with id: \"parent.<field>\" or id: \"args.<name>\"" else [])
      else do
        let load ← loaderOf field use wiring model path
        let condition ← conditionOf field use wiring model
        pure
          { label := js "@permission on " ++ on use.where_ field
            name := use.name
            type := use.type
            onDeny := use.onDeny
            path
            load
            condition }

end Validate

/-- One `type:` more: the types so far, intersected. -/
def meetTypes (field : Str) (known : List Str) (types : Option (List Str))
    (use : AuthenticatedUse) :
    Build (Option (List Str)) :=
  match use.types with
  | none => pure types
  | some [] =>
    throw <| PREFIX ++ js ": @authenticated on " ++ on use.where_ field ++
      js " names no user type — leave type: out to admit any signed-in user"
  | some named =>
    match named.find? (· ∉ known) with
    | some name =>
      throw <| PREFIX ++ js ": @authenticated on " ++ on use.where_ field ++
        js " names the user type '" ++ name ++ js "', which is not one of " ++ quoted known
    | none =>
      pure <| some <| match types with
        | none => addAll [] named
        | some types => addAll [] (named.filter (· ∈ types))

/-- Every `type:` intersected, or `none` when none names any. -/
def typesOf (field : Str) (uses : List AuthenticatedUse) (known : List Str) :
    Build (Option (List Str)) := do
  let types ← uses.foldlM (meetTypes field known) none
  if types = some [] then
    throw <| PREFIX ++ js ": the @authenticated on " ++ field ++
      js " and on its type or interfaces admit no user type in common"
  else pure types

/-- One `maxAge` more: the smaller. -/
def meetAge (field : Str) (seconds : Option ℤ) (use : FreshUse) : Build (Option ℤ) :=
  if !Data.isSafeInteger use.maxAge ∨ use.maxAge ≤ 0 then
    throw <| PREFIX ++ js ": @fresh on " ++ on use.where_ field ++ js " asks maxAge: " ++
      Data.intText use.maxAge ++
      js " — write a number of seconds above zero, such as maxAge: 600 for ten minutes"
  else pure <| some <| seconds.elim use.maxAge (min · use.maxAge)

/-- The smallest `maxAge`, in milliseconds. -/
def maxAgeOf (field : Str) (uses : List FreshUse) : Build (Option ℤ) := do
  let seconds ← uses.foldlM (meetAge field) none
  pure (seconds.map (· * 1000))

/-- The directive a missing `ctx.janus` is reported against: the first checked. -/
def firstOf (directives : FieldDirectives) : Option (Str × Str) :=
  match directives.authenticated, directives.fresh, directives.permission with
  | use :: _, _, _ => some (js "@authenticated", use.where_)
  | [], use :: _, _ => some (js "@fresh", use.where_)
  | [], [], use :: _ => some (js "@permission", use.where_)
  | [], [], [] => none

/-- The requirement of one field, or `none` when nothing guards it. -/
def requirementOf (field : Str) (args : List Str) (directives : FieldDirectives) (known : List Str)
    (wiring : Wiring) : Build (Option Requirement) :=
  match firstOf directives with
  | none => pure none
  | some (name, where_) => do
    let types ← typesOf field directives.authenticated known
    let maxAgeMs ← maxAgeOf field directives.fresh
    let permissions ← directives.permission.mapM fun use => permissionCheckOf field use wiring args
    pure (some
      { where_ := field
        label := name ++ js " on " ++ on where_ field
        types
        maxAgeMs
        permissions })

/-- The user types a directive may name: `auth.types`, or the one the schema's users have. -/
def knownOf (types : List Str) (type : Option Str) : Build (List Str) :=
  match type with
  | none => pure types
  | some type =>
    if type ∈ types then pure [type]
    else
      throw <| PREFIX ++ js ": type '" ++ type ++ js "' is not a user type of auth — it knows " ++
        quoted types

/-! ## Nothing written is lost -/

section Requires

variable {field : Str}

/-- A `type:` more leaves no type it does not name. -/
theorem meetTypes_ok {known : List Str} {types types' : Option (List Str)} {use : AuthenticatedUse}
    (h : meetTypes field known types use = .ok types') :
    (∀ named, use.types = some named → ∃ ts, types' = some ts ∧ ts ⊆ named) ∧
      ∀ ts, types = some ts → ∃ ts', types' = some ts' ∧ ts' ⊆ ts := by
  rw [meetTypes] at h
  split at h
  case h_1 hnone =>
    cases h
    refine ⟨fun named hnamed => ?_, fun ts hts => ⟨ts, hts, List.Subset.refl ts⟩⟩
    rw [hnone] at hnamed
    cases hnamed
  case h_2 => cases h
  case h_3 named _ hnamed =>
    split at h
    · cases h
    cases h
    refine ⟨fun named' hnamed' => ?_, fun ts hts => ?_⟩
    · cases hnamed.symm.trans hnamed'
      refine ⟨_, rfl, fun u hu => ?_⟩
      cases types with
      | none => simpa using hu
      | some ts => exact (List.mem_filter.mp (by simpa using hu : u ∈ named.filter (· ∈ ts))).1
    · subst hts
      refine ⟨_, rfl, fun u hu => ?_⟩
      have hu : u ∈ named.filter (· ∈ ts) := by simpa using hu
      exact of_decide_eq_true (List.mem_filter.mp hu).2

/-- **No type admitted is left out by a `type:`.** -/
theorem typesOf_ok {uses : List AuthenticatedUse} {known : List Str} {types : Option (List Str)}
    (h : typesOf field uses known = .ok types) :
    ∀ use ∈ uses, ∀ named, use.types = some named → ∃ ts, types = some ts ∧ ts ⊆ named := by
  obtain ⟨met, hmet, h⟩ := Except.bind_ok.mp h
  split at h
  · cases h
  cases h
  refine List.foldlM_ok (fun done types => ∀ use ∈ done, ∀ named, use.types = some named →
    ∃ ts, types = some ts ∧ ts ⊆ named) (by simp) (fun done use types types' _ ih hmeet => ?_) hmet
  obtain ⟨hnew, hold⟩ := meetTypes_ok hmeet
  intro use' huse' named hnamed
  obtain huse' | huse' := List.mem_append.mp huse'
  · obtain ⟨ts, hts, hsub⟩ := ih use' huse' named hnamed
    obtain ⟨ts', hts', hsub'⟩ := hold ts hts
    exact ⟨ts', hts', List.Subset.trans hsub' hsub⟩
  · rw [List.mem_singleton.mp huse'] at hnamed
    exact hnew named hnamed

/-- **The age asked is no `maxAge`'s more.** -/
theorem maxAgeOf_ok {uses : List FreshUse} {maxAgeMs : Option ℤ}
    (h : maxAgeOf field uses = .ok maxAgeMs) :
    ∀ use ∈ uses, ∃ ms, maxAgeMs = some ms ∧ ms ≤ use.maxAge * 1000 := by
  obtain ⟨met, hmet, h⟩ := Except.bind_ok.mp h
  cases h
  have hall : ∀ use ∈ uses, ∃ s, met = some s ∧ s ≤ use.maxAge := by
    refine List.foldlM_ok (fun done (seconds : Option ℤ) =>
      ∀ use ∈ done, ∃ s, seconds = some s ∧ s ≤ use.maxAge) (by simp)
      (fun done use seconds seconds' _ ih hmeet => ?_) hmet
    rw [meetAge] at hmeet
    split at hmeet
    · cases hmeet
    cases hmeet
    intro use' huse'
    obtain huse' | huse' := List.mem_append.mp huse'
    · obtain ⟨s, rfl, hle⟩ := ih use' huse'
      exact ⟨_, rfl, (min_le_left s use.maxAge).trans hle⟩
    · rw [List.mem_singleton.mp huse']
      cases seconds with
      | none => exact ⟨_, rfl, le_refl use.maxAge⟩
      | some s => exact ⟨_, rfl, min_le_right s use.maxAge⟩
  intro use huse
  obtain ⟨s, rfl, hle⟩ := hall use huse
  exact ⟨s * 1000, rfl, by omega⟩

/-- A check loads its object when the path does not hold it, and there is a loader. -/
theorem loaderOf_ok {use : PermissionUse} {wiring : Wiring} {model : ModelLike} {path : IdPath}
    {load : Bool} (h : loaderOf field use wiring model path = .ok load) :
    load = (!path.held && get wiring.loaders use.type = some .function) := by
  rw [loaderOf] at h
  split at h
  · cases h
  case isFalse hother =>
  split at h
  case isTrue hheld =>
    cases h
    rw [hheld]
    rfl
  case isFalse hheld =>
    rw [Bool.not_eq_true] at hheld
    rw [hheld]
    cases hload : get wiring.loaders use.type with
    | none =>
      rw [hload] at h
      dsimp only [Option.isSome] at h
      split at h
      · cases ‹false = true›
      split at h
      · cases h
      · cases h
        rfl
    | some entry =>
      rw [hload] at h hother
      cases entry with
      | function =>
        cases h
        rfl
      | other => exact absurd rfl hother

/-- Whether a check loads its object. -/
def PermissionCheck.loads (check : PermissionCheck) (wiring : Wiring) : Bool :=
  !check.path.held && get wiring.loaders check.type = some .function

/-- **A check asks what its directive names**, of the ids it names. -/
structure Asks (use : PermissionUse) (wiring : Wiring) (check : PermissionCheck) : Prop where
  name : check.name = use.name
  type : check.type = use.type
  onDeny : check.onDeny = use.onDeny
  path : parsePath use.idText = some check.path
  load : check.load = check.loads wiring

theorem permissionCheckOf_ok {use : PermissionUse} {wiring : Wiring} {args : List Str}
    {check : PermissionCheck} (h : permissionCheckOf field use wiring args = .ok check) :
    Asks use wiring check := by
  rw [permissionCheckOf] at h
  split at h
  · cases h
  case h_2 model _ =>
  obtain ⟨_, -, h⟩ := Except.bind_ok.mp h
  split at h
  · cases h
  case h_2 path hpath =>
  dsimp only at h
  split at h
  · cases h
  obtain ⟨load, hload, h⟩ := Except.bind_ok.mp h
  obtain ⟨condition, -, h⟩ := Except.bind_ok.mp h
  cases h
  refine ⟨rfl, rfl, rfl, hpath, ?_⟩
  exact loaderOf_ok hload

/-- An object named by its id alone and loaded by nothing is of a type that reads no field. -/
theorem loaderOf_fields {use : PermissionUse} {wiring : Wiring} {model : ModelLike} {path : IdPath}
    (h : loaderOf field use wiring model path = .ok false) (hheld : path.held = false) :
    model.fieldsOf use.type = [] := by
  rw [loaderOf] at h
  split at h
  · cases h
  rw [hheld, if_neg Bool.false_ne_true] at h
  split at h
  · cases h
  split at h
  · cases h
  · exact not_not.mp ‹_›

theorem conditionOf_ok {use : PermissionUse} {wiring : Wiring} {model : ModelLike}
    {condition : Bool}
    (h : conditionOf field use wiring model = .ok condition) :
    condition = model.reachesCondition use.type use.name := by
  rw [conditionOf] at h
  split at h
  case isTrue hnone =>
    cases h
    exact (Bool.not_eq_true' _ ▸ hnone).symm
  case isFalse hreaches =>
    split at h
    · cases h
    · cases h
      simpa using hreaches

/-- **What a check goes without, the model has no need of.** -/
theorem permissionCheckOf_needs {use : PermissionUse} {wiring : Wiring} {args : List Str}
    {check : PermissionCheck} (h : permissionCheckOf field use wiring args = .ok check)
    {model : ModelLike} (hmodel : wiring.model = some model) :
    check.condition = model.reachesCondition check.type check.name ∧
      (check.path.held = false → check.load = false → model.fieldsOf check.type = []) := by
  rw [permissionCheckOf, hmodel] at h
  obtain ⟨_, -, h⟩ := Except.bind_ok.mp h
  split at h
  · cases h
  case h_2 path hpath =>
  dsimp only at h
  split at h
  · cases h
  obtain ⟨load, hload, h⟩ := Except.bind_ok.mp h
  obtain ⟨condition, hcondition, h⟩ := Except.bind_ok.mp h
  cases h
  refine ⟨conditionOf_ok hcondition, fun hheld hnone => ?_⟩
  dsimp only at hnone
  exact loaderOf_fields (hnone ▸ hload) hheld

end Requires

/-- **A requirement asks everything that was written.** -/
structure Requires (type : ObjectType) (field : Field) (wiring : Wiring)
    (requirement : Requirement) : Prop where
  types : ∀ at_ ∈ locations type field, ∀ named, some named ∈ at_.node.authenticated →
    ∃ ts, requirement.types = some ts ∧ ts ⊆ named
  fresh : ∀ at_ ∈ locations type field, ∀ maxAge ∈ at_.node.fresh,
    ∃ ms, requirement.maxAgeMs = some ms ∧ ms ≤ maxAge * 1000
  permissions : ∀ at_ ∈ locations type field, ∀ args ∈ at_.node.permission,
    ∃ check ∈ requirement.permissions, Asks ⟨args, at_.where_, at_.onType⟩ wiring check

theorem requirementOf_ok {type : ObjectType} {field : Field} {known : List Str} {wiring : Wiring}
    {requirement : Requirement}
    (h : requirementOf (nameOf type field) field.args (readField type field) known wiring =
      .ok (some requirement)) : Requires type field wiring requirement := by
  rw [requirementOf] at h
  split at h
  · cases h
  obtain ⟨types, htypes, h⟩ := Except.bind_ok.mp h
  obtain ⟨maxAgeMs, hage, h⟩ := Except.bind_ok.mp h
  obtain ⟨permissions, hpermissions, h⟩ := Except.bind_ok.mp h
  cases h
  refine ⟨fun at_ hat named hnamed => ?_, fun at_ hat maxAge hmax => ?_,
    fun at_ hat args hargs => ?_⟩
  · exact typesOf_ok htypes ⟨at_.where_, some named⟩
      (List.mem_flatMap.mpr ⟨at_, hat, List.mem_map.mpr ⟨_, hnamed, rfl⟩⟩) named rfl
  · exact maxAgeOf_ok hage ⟨at_.where_, maxAge⟩
      (List.mem_flatMap.mpr ⟨at_, hat, List.mem_map.mpr ⟨_, hmax, rfl⟩⟩)
  · obtain ⟨check, hcheck, hok⟩ := (List.mapM_oks hpermissions).exists_right
      (List.mem_flatMap.mpr ⟨at_, hat, List.mem_map.mpr ⟨args, hargs, rfl⟩⟩)
    exact ⟨check, hcheck, permissionCheckOf_ok hok⟩

/-- A field something is written for has a requirement, or the schema is refused. -/
theorem requirementOf_none {type : ObjectType} {field : Field} {known : List Str} {wiring : Wiring}
    (h : requirementOf (nameOf type field) field.args (readField type field) known wiring = .ok none) :
    ∀ at_ ∈ locations type field,
      at_.node.authenticated = [] ∧ at_.node.fresh = [] ∧ at_.node.permission = [] := by
  rw [requirementOf] at h
  split at h
  case h_2 =>
    obtain ⟨_, -, h⟩ := Except.bind_ok.mp h
    obtain ⟨_, -, h⟩ := Except.bind_ok.mp h
    obtain ⟨_, -, h⟩ := Except.bind_ok.mp h
    cases h
  case h_1 hfirst =>
    rw [firstOf] at hfirst
    split at hfirst
    · cases hfirst
    · cases hfirst
    · cases hfirst
    case h_4 hauthenticated hfresh hpermission =>
      intro at_ hat
      exact ⟨List.map_eq_nil_iff.mp (List.flatMap_eq_nil_iff.mp hauthenticated at_ hat),
        List.map_eq_nil_iff.mp (List.flatMap_eq_nil_iff.mp hfresh at_ hat),
        List.map_eq_nil_iff.mp (List.flatMap_eq_nil_iff.mp hpermission at_ hat)⟩

end Janus.Graphql
