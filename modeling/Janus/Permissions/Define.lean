import Janus.Permissions.Rules
import Janus.Permissions.Accepted

/-!
# Permissions/Define — `defineModel()`

A model as it is written — subject types, object types, and of each its relations and its
permissions — resolved: every string parsed once, every reference checked, the names first, since a
subject set or an arrow may name a relation of a type declared further down.  What is accepted
carries its own checks (`resolveTypes_checked`); what refuses a model after that is `refuseLoops`
and `refuseDataBeyondRoot`.
-/

namespace Janus.Permissions

open Js Insertion

variable {Ctx : Type}

/-! ## Written -/

/-- What a property holds where an object is asked for: its own entries, in order, no key twice. -/
inductive ObjectDef (α : Type) where
  | undefined
  | object (entries : List (Str × α)) (nodup : (entries.map Prod.fst).Nodup)
  | other

/-- The entries, of what holds any. -/
def ObjectDef.entries {α : Type} : ObjectDef α → List (Str × α)
  | .object entries _ => entries
  | _ => []

/-- The `lookup` of a `fromField`: of the ids it answers, an array or something else. -/
inductive LookupDef where
  | undefined
  | function (lookup : Str → Except Failure (Option (List Value)))
  | other

/-- A relation: a `fromField`, an array, or anything else. -/
inductive RelationDef where
  | fromField (field subject : Value) (lookup : LookupDef)
  | holders (values : List Value)
  | other

/-- The rules of a permission: an array, or anything else. -/
inductive PermitDef (Ctx : Type) where
  | rules (rules : List (RuleDef Ctx))
  | other

/-- An object type, with the keys it is written with. -/
inductive TypeDef (Ctx : Type) where
  | object (keys : List Str) (related : ObjectDef RelationDef) (permits : ObjectDef (PermitDef Ctx))
  | other

/-- The subject types: an array, or anything else. -/
inductive SubjectsDef where
  | array (values : List Value)
  | other

/-- A model. -/
inductive ModelConfig (Ctx : Type) where
  | object (subjects : SubjectsDef) (types : ObjectDef (TypeDef Ctx))
  | other

namespace TypeDef

def related : TypeDef Ctx → List (Str × RelationDef)
  | .object _ related _ => related.entries
  | .other => []

def permits : TypeDef Ctx → List (Str × PermitDef Ctx)
  | .object _ _ permits => permits.entries
  | .other => []

end TypeDef

/-! ## Names -/

section Resolve

variable (where_ : Str)

/-- What a name that is not camelCase is refused with, where it is written. -/
def CAMEL_CASE : Str :=
  js "must be a camelCase name — letters and digits, starting with a lowercase letter"

/-- The subject types: camelCase names. -/
def subjectTypesOf (subjects : SubjectsDef) : Except Failure (List Str) :=
  match subjects with
  | .other =>
    throw <| refuse where_ <| js "subjects must be an array of subject type names — auth.types from " ++
      js "janus(), or your own"
  | .array values => do
    let names ← values.mapM fun subject =>
      match subject.asString.filter fun name => isName name with
      | some name => pure name
      | none =>
        throw <| refuse where_ <| js "the subject type \"" ++ subject.toText ++
          js "\" must be a camelCase name"
    pure (addAll [] names)

/-- The object types: at least one, each under a camelCase name. -/
def objectTypesOf (types : ObjectDef (TypeDef Ctx)) : Except Failure (List (Str × TypeDef Ctx)) :=
  match types with
  | .object (first :: rest) _ => do
    (first :: rest).forM fun e =>
      if isName e.1 then pure ()
      else throw <| refuse where_ <| js "the object type \"" ++ e.1 ++ js "\" " ++ CAMEL_CASE
    pure (first :: rest)
  | _ => throw <| refuse where_ <| js "types declares no object type"

/-- The names an object type declares. -/
structure DeclaredNames where
  relations : List Str
  permissions : List Str

def namesIn {α : Type} (value : ObjectDef α) (at_ : Str) : Except Failure (List Str) :=
  match value with
  | .undefined => pure []
  | .other => throw <| refuse where_ <| at_ ++ js " must be an object"
  | .object entries _ => do
    entries.forM fun e =>
      if isName e.1 then pure ()
      else throw <| refuse where_ <| at_ ++ js ": \"" ++ e.1 ++ js "\" " ++ CAMEL_CASE
    pure (entries.map Prod.fst)

/-- Refuses a key that is neither `related` nor `permits`; two have been renamed. -/
def checkKey (at_ key : Str) : Except Failure Unit :=
  if key = js "related" ∨ key = js "permits" then pure ()
  else
    let renamed (name : Str) : Except Failure Unit :=
      throw <| refuse where_ <| at_ ++ js "." ++ key ++ js " is now " ++ name ++
      js ": rename the key"
    if key = js "relations" then renamed (js "related")
    else if key = js "permissions" then renamed (js "permits")
    else
      throw <| refuse where_ <| at_ ++ js "." ++ key ++
        js " is not a key of an object type: related or permits"

/-- The names one type declares, none of them twice. -/
def declaredIn (name : Str) (def_ : TypeDef Ctx) : Except Failure DeclaredNames :=
  let at_ := js "types." ++ name
  match def_ with
  | .other => throw <| refuse where_ <| at_ ++ js " must be an object"
  | .object keys related permits => do
    keys.forM (checkKey where_ at_)
    let relations ← namesIn where_ related (at_ ++ js ".related")
    let permissions ← namesIn where_ permits (at_ ++ js ".permits")
    permissions.forM fun permission =>
      if permission ∈ relations then
        throw <| refuse where_ <| at_ ++ js ": \"" ++ permission ++
          js "\" names a relation and a permission; rename one"
      else pure ()
    pure ⟨relations, permissions⟩

/-- Every type's names, before any rule is read. -/
def collectNames (types : List (Str × TypeDef Ctx)) : Except Failure (List (Str × DeclaredNames)) :=
  mapEntries (declaredIn where_) types

/-! ## Relations -/

/-- What resolving one type reads of the others. -/
structure TypesContext where
  subjects : List Str
  typeNames : List Str
  names : List (Str × DeclaredNames)

namespace TypesContext

variable (declared : TypesContext)

def isSubjectType (type : Str) : Bool := type ∈ declared.subjects || type ∈ declared.typeNames

def relationNames (type : Str) : List Str := ((get declared.names type).map (·.relations)).getD []

def namesOf (type : Str) : List Str :=
  ((get declared.names type).map fun names => names.relations ++ names.permissions).getD []

end TypesContext

/-- `/^[A-Za-z_$][A-Za-z0-9_$]*$/`: a top-level property. -/
def isField (name : Str) : Bool :=
  let letter (u : CodeUnit) : Bool :=
    u = 95 || u = 36 || (65 ≤ u.val && u.val ≤ 90) || (97 ≤ u.val && u.val ≤ 122)
  match name with
  | [] => false
  | u :: rest => letter u && rest.all fun u => letter u || (48 ≤ u.val && u.val ≤ 57)

/-- A text, cut at its first `#`. -/
def cutHash (text : Str) : Option (Str × Str) :=
  match text.dropWhile (· ≠ 35) with
  | [] => none
  | _ :: rest => some (text.takeWhile (· ≠ 35), rest)

variable (declared : TypesContext)

/-- Who may hold a relation: a subject type, or a set of an object type's relation. -/
def resolveHolder (here : Str) (value : Value) : Except Failure Holder :=
  match value.asString with
  | none => throw <| refuse where_ <| here ++ js ": a holder must be a string"
  | some holder =>
    match cutHash holder with
    | none =>
      if declared.isSubjectType holder then pure (.type holder)
      else throw <| refuse where_ <| here ++ js ": \"" ++ holder ++ js "\" is not a subject type"
    | some (type, relation) =>
      if relation ∈ declared.relationNames type then pure (.set type relation)
      else
        throw <| refuse where_ <| here ++ js ": \"" ++ holder ++
          js "\" is not a subject set — it must name an object type and one of its relations"

/-- One relation of an object type: its holders, or the field it is read from. -/
def resolveRelation (at_ name : Str) (value : RelationDef) : Except Failure ResolvedRelation :=
  let here := at_ ++ js ".related." ++ name
  match value with
  | .fromField field subject lookup =>
    match field.asString.filter fun field => isField field with
    | none => throw <| refuse where_ <| here ++ js ": fromField must name a top-level field"
    | some field =>
      match subject.asString.filter fun subject => declared.isSubjectType subject with
      | none =>
        throw <| refuse where_ <| here ++ js ": fromField names \"" ++ subject.toText ++
          js "\", which is not a subject type"
      | some subject =>
        match lookup with
        | .undefined => pure (.fromField field subject none)
        | .function lookup => pure (.fromField field subject (some lookup))
        | .other => throw <| refuse where_ <| here ++ js ": fromField's lookup must be a function"
  | .holders (first :: rest) => do
    pure (.stored (← (first :: rest).mapM (resolveHolder where_ declared here)))
  | _ =>
    throw <| refuse where_ <| here ++
      js " must be a non-empty array of subject types, or fromField()"

/-! ## Types -/

/-- The rules of one permission. -/
def resolvePermit (at_ : Str) (c : RuleContext Ctx) (name : Str) (value : PermitDef Ctx) :
    Except Failure (List (ResolvedRule Ctx)) :=
  let here := at_ ++ js ".permits." ++ name
  match value with
  | .rules (first :: rest) =>
    (first :: rest).zipIdx.mapM fun rule =>
      resolveRule where_ c (here ++ js "[" ++ decimal rule.2 ++ js "]") rule.1
  | _ => throw <| refuse where_ <| here ++ js " must be a non-empty array of rules"

/-- What the rules of a type are resolved with. -/
def ruleContext (name : Str) (relations : List (Str × ResolvedRelation)) : RuleContext Ctx where
  own := declared.namesOf name
  relations := relations
  typeNames := declared.typeNames
  namesOf := declared.namesOf
  self := name

/-- One object type: its relations, then its permissions. -/
def resolveType (name : Str) (def_ : TypeDef Ctx) : Except Failure (ResolvedObjectType Ctx) := do
  let at_ := js "types." ++ name
  let relations ← mapEntries (resolveRelation where_ declared at_) def_.related
  let permissions ← mapEntries
    (resolvePermit where_ at_ (ruleContext declared name relations)) def_.permits
  pure ⟨name, relations, permissions⟩

/-- Each object type, every rule parsed once. -/
def resolveTypes (subjects : List Str) (types : ObjectDef (TypeDef Ctx)) :
    Except Failure (List (Str × ResolvedObjectType Ctx)) := do
  let types ← objectTypesOf where_ types
  let names ← collectNames where_ types
  mapEntries (resolveType where_ ⟨subjects, types.map Prod.fst, names⟩) types

end Resolve

/-! ## What was accepted -/

section Names

variable {where_ : Str}

theorem subjectTypesOf_isName {subjects : SubjectsDef} {names : List Str}
    (h : subjectTypesOf where_ subjects = .ok names) : ∀ s ∈ names, isName s = true := by
  cases subjects with
  | other => cases h
  | array values =>
    obtain ⟨read, hread, h⟩ := Except.bind_ok.mp h
    obtain rfl := Except.pure_ok.mp h
    intro s hs
    obtain ⟨value, -, hvalue⟩ := (List.mapM_oks hread).flip.exists_right (by simpa using hs)
    split at hvalue
    case h_1 hname =>
      obtain rfl := Except.pure_ok.mp hvalue
      exact (Option.filter_eq_some_iff.mp hname).2
    case h_2 => cases hvalue

theorem objectTypesOf_ok {types : ObjectDef (TypeDef Ctx)} {entries : List (Str × TypeDef Ctx)}
    (h : objectTypesOf where_ types = .ok entries) :
    (∃ hnodup, types = .object entries hnodup) ∧ ∀ e ∈ entries, isName e.1 = true := by
  unfold objectTypesOf at h
  split at h
  case h_2 => cases h
  case h_1 hnodup =>
    obtain ⟨_, hall, h⟩ := Except.bind_ok.mp h
    obtain rfl := Except.pure_ok.mp h
    refine ⟨⟨hnodup, rfl⟩, fun e he => ?_⟩
    by_contra hnot
    have hchecked := List.forM_ok.mp hall e he
    rw [if_neg hnot] at hchecked
    cases hchecked

theorem namesIn_ok {α : Type} {value : ObjectDef α} {at_ : Str} {names : List Str}
    (h : namesIn where_ value at_ = .ok names) :
    names = value.entries.map Prod.fst ∧ ∀ name ∈ names, isName name = true := by
  cases value with
  | undefined =>
    obtain rfl := Except.pure_ok.mp h
    exact ⟨rfl, nofun⟩
  | other => cases h
  | object entries hnodup =>
    obtain ⟨_, hall, h⟩ := Except.bind_ok.mp h
    obtain rfl := Except.pure_ok.mp h
    refine ⟨rfl, fun name hname => ?_⟩
    obtain ⟨e, he, rfl⟩ := List.mem_map.mp hname
    by_contra hnot
    have hchecked := List.forM_ok.mp hall e he
    rw [if_neg hnot] at hchecked
    cases hchecked

/-- **A type's names are the keys it is written with**, camelCase, none of them twice. -/
structure DeclaredNames.Of (names : DeclaredNames) (def_ : TypeDef Ctx) : Prop where
  relations : names.relations = def_.related.map Prod.fst
  permissions : names.permissions = def_.permits.map Prod.fst
  relation_isName : ∀ name ∈ names.relations, isName name = true
  permission_isName : ∀ name ∈ names.permissions, isName name = true
  fresh : ∀ name ∈ names.permissions, name ∉ names.relations

theorem declaredIn_ok {name : Str} {def_ : TypeDef Ctx} {names : DeclaredNames}
    (h : declaredIn where_ name def_ = .ok names) : names.Of def_ := by
  cases def_ with
  | other => cases h
  | object keys related permits =>
    obtain ⟨_, -, h⟩ := Except.bind_ok.mp h
    obtain ⟨relations, hrelations, h⟩ := Except.bind_ok.mp h
    obtain ⟨permissions, hpermissions, h⟩ := Except.bind_ok.mp h
    obtain ⟨_, hfresh, h⟩ := Except.bind_ok.mp h
    obtain rfl := Except.pure_ok.mp h
    obtain ⟨hr, hrname⟩ := namesIn_ok hrelations
    obtain ⟨hp, hpname⟩ := namesIn_ok hpermissions
    refine ⟨hr, hp, hrname, hpname, fun permission hpermission hmem => ?_⟩
    have hchecked := List.forM_ok.mp hfresh permission hpermission
    rw [if_pos hmem] at hchecked
    cases hchecked

end Names

/-- **What a model was resolved from**: its entries, and the names they declare. -/
structure Resolving (where_ : Str) (declared : TypesContext) (entries : List (Str × TypeDef Ctx))
    (types : List (Str × ResolvedObjectType Ctx)) : Prop where
  nodup : (entries.map Prod.fst).Nodup
  isName : ∀ e ∈ entries, isName e.1 = true
  typeNames : declared.typeNames = entries.map Prod.fst
  names : collectNames where_ entries = .ok declared.names
  types : mapEntries (resolveType where_ declared) entries = .ok types

theorem resolveTypes_ok {where_ : Str} {subjects : List Str} {def_ : ObjectDef (TypeDef Ctx)}
    {types : List (Str × ResolvedObjectType Ctx)}
    (h : resolveTypes where_ subjects def_ = .ok types) :
    ∃ declared, declared.subjects = subjects ∧ Resolving where_ declared def_.entries types := by
  obtain ⟨entries, hentries, hrest⟩ := Except.bind_ok.mp h
  obtain ⟨names, hnames, htypes⟩ := Except.bind_ok.mp hrest
  obtain ⟨⟨hnodup, rfl⟩, hname⟩ := objectTypesOf_ok hentries
  exact ⟨⟨subjects, entries.map Prod.fst, names⟩, rfl, hnodup, hname, rfl, hnames, htypes⟩

namespace Resolving

variable {where_ : Str} {declared : TypesContext} {entries : List (Str × TypeDef Ctx)}
  {types : List (Str × ResolvedObjectType Ctx)}

/-- A resolved type, and what it was resolved from. -/
structure TypeOf (where_ : Str) (declared : TypesContext) (name : Str) (def_ : TypeDef Ctx)
    (type : ResolvedObjectType Ctx) : Prop where
  name_eq : type.name = name
  relations : mapEntries (resolveRelation where_ declared (js "types." ++ name)) def_.related =
    .ok type.relations
  permissions : mapEntries (resolvePermit where_ (js "types." ++ name)
    (ruleContext declared name type.relations)) def_.permits = .ok type.permissions
  names : ∃ names : DeclaredNames, get declared.names name = some names ∧ names.Of def_

theorem keys (h : Resolving where_ declared entries types) :
    types.map Prod.fst = entries.map Prod.fst :=
  map_fst_mapEntries h.types

theorem typeOf (h : Resolving where_ declared entries types) {name : Str}
    {type : ResolvedObjectType Ctx} (htype : get types name = some type) :
    ∃ def_, get entries name = some def_ ∧ TypeOf where_ declared name def_ type := by
  obtain ⟨def_, hdef, hresolve⟩ := get_mapEntries_some h.types htype
  obtain ⟨relations, hrelations, hresolve⟩ := Except.bind_ok.mp hresolve
  obtain ⟨permissions, hpermissions, hresolve⟩ := Except.bind_ok.mp hresolve
  obtain rfl := Except.pure_ok.mp hresolve
  have hnames := get_mapEntries h.names name
  rw [hdef] at hnames
  obtain ⟨names, hget, hnames⟩ := hnames
  exact ⟨def_, hdef, rfl, hrelations, hpermissions, names, hget, declaredIn_ok hnames⟩

theorem typeOf_of_mem (h : Resolving where_ declared entries types)
    {e : Str × ResolvedObjectType Ctx} (he : e ∈ types) :
    ∃ def_, get entries e.1 = some def_ ∧ TypeOf where_ declared e.1 def_ e.2 :=
  h.typeOf (get_of_mem (by rw [h.keys]; exact h.nodup) he)

namespace TypeOf

variable {name : Str} {def_ : TypeDef Ctx} {type : ResolvedObjectType Ctx}

theorem relation_keys (h : TypeOf where_ declared name def_ type) :
    declared.relationNames name = type.relations.map Prod.fst := by
  obtain ⟨names, hget, hof⟩ := h.names
  rw [TypesContext.relationNames, hget, map_fst_mapEntries h.relations]
  exact hof.relations

theorem mem_namesOf (h : TypeOf where_ declared name def_ type) {n : Str} :
    n ∈ declared.namesOf name ↔ type.declares n = true := by
  obtain ⟨names, hget, hof⟩ := h.names
  have hnames : declared.namesOf name = names.relations ++ names.permissions := by
    rw [TypesContext.namesOf, hget]
    rfl
  rw [hnames, hof.relations, hof.permissions, ← map_fst_mapEntries h.relations,
    ← map_fst_mapEntries h.permissions, List.mem_append, mem_keys, mem_keys,
    ResolvedObjectType.declares, Bool.or_eq_true]

/-- No permission is a relation. -/
theorem fresh (h : TypeOf where_ declared name def_ type) {e : Str × List (ResolvedRule Ctx)}
    (he : e ∈ type.permissions) : get type.relations e.1 = none := by
  obtain ⟨names, -, hof⟩ := h.names
  have hmem : e.1 ∈ names.permissions := by
    rw [hof.permissions, ← map_fst_mapEntries h.permissions]
    exact List.mem_map_of_mem he
  have hnot := hof.fresh _ hmem
  rw [hof.relations, ← map_fst_mapEntries h.relations, mem_keys] at hnot
  exact Option.not_isSome_iff_eq_none.mp hnot

end TypeOf

/-- A type written is a type resolved. -/
theorem typeOf_entry (h : Resolving where_ declared entries types) {t : Str} {def_ : TypeDef Ctx}
    (hdef : get entries t = some def_) :
    ∃ type, get types t = some type ∧ TypeOf where_ declared t def_ type := by
  have hread := get_mapEntries h.types t
  rw [hdef] at hread
  obtain ⟨type, htype, -⟩ := hread
  obtain ⟨def', hdef', hof⟩ := h.typeOf htype
  cases hdef.symm.trans hdef'
  exact ⟨type, htype, hof⟩

/-- What a type declares is named by a name. -/
theorem isName_of_mem_namesOf (h : Resolving where_ declared entries types) {t n : Str}
    (hmem : n ∈ declared.namesOf t) : Permissions.isName n = true := by
  rw [TypesContext.namesOf] at hmem
  cases hget : get declared.names t with
  | none => simp [hget] at hmem
  | some names =>
    obtain ⟨_, -, hnames⟩ := get_mapEntries_some h.names hget
    rw [hget, Option.map_some, Option.getD_some] at hmem
    exact (List.mem_append.mp hmem).elim ((declaredIn_ok hnames).relation_isName n)
      ((declaredIn_ok hnames).permission_isName n)

theorem type_of_names (h : Resolving where_ declared entries types) {t : Str}
    (hnames : (get declared.names t).isSome) : ∃ type, get types t = some type := by
  rw [← mem_keys, map_fst_mapEntries h.names, ← h.keys, mem_keys] at hnames
  exact Option.isSome_iff_exists.mp hnames

/-- A set may be of a relation a type has. -/
theorem mem_relationNames (h : Resolving where_ declared entries types) {t n : Str}
    (hmem : n ∈ declared.relationNames t) :
    ∃ type, get types t = some type ∧ (get type.relations n).isSome := by
  have hsome : (get declared.names t).isSome := by
    rw [TypesContext.relationNames] at hmem
    cases hget : get declared.names t with
    | none => simp [hget] at hmem
    | some names => rfl
  obtain ⟨type, htype⟩ := h.type_of_names hsome
  obtain ⟨def_, -, hof⟩ := h.typeOf htype
  rw [hof.relation_keys, mem_keys] at hmem
  exact ⟨type, htype, hmem⟩

/-- …and an arrow to any name one declares. -/
theorem declares_of_mem (h : Resolving where_ declared entries types) {t n : Str}
    (hmem : n ∈ declared.namesOf t) : declares types t n = true := by
  have hsome : (get declared.names t).isSome := by
    rw [TypesContext.namesOf] at hmem
    cases hget : get declared.names t with
    | none => simp [hget] at hmem
    | some names => rfl
  obtain ⟨type, htype⟩ := h.type_of_names hsome
  obtain ⟨def_, -, hof⟩ := h.typeOf htype
  rw [declares, htype]
  exact hof.mem_namesOf.mp hmem

end Resolving

/-! ### Relations and rules -/

section Parts

variable {where_ : Str} {declared : TypesContext}

theorem takeWhile_of_cutHash {text : Str} :
    match cutHash text with
    | none => text.takeWhile (· ≠ 35) = text
    | some (type, _) => text.takeWhile (· ≠ 35) = type := by
  rw [cutHash]
  cases hdrop : text.dropWhile (· ≠ 35) with
  | nil =>
    have := List.takeWhile_append_dropWhile (p := (· ≠ (35 : CodeUnit))) (l := text)
    rw [hdrop, List.append_nil] at this
    exact this
  | cons u rest => rfl

/-- **A holder, as written**: its type is what precedes a `#`, and its set is of a relation
declared. -/
theorem resolveHolder_ok {here : Str} {value : Value} {holder : Holder}
    (h : resolveHolder where_ declared here value = .ok holder) : ∃ text, value = .str text ∧
      match holder with
      | .type type => text.takeWhile (· ≠ 35) = type
      | .set type relation =>
        text.takeWhile (· ≠ 35) = type ∧ relation ∈ declared.relationNames type := by
  unfold resolveHolder at h
  split at h
  case h_1 => cases h
  case h_2 text htext =>
    have htake := @takeWhile_of_cutHash text
    refine ⟨text, asString_eq.mp htext, ?_⟩
    split at h
    case h_1 hcut =>
      rw [hcut] at htake
      split at h
      · obtain rfl := Except.pure_ok.mp h
        exact htake
      · cases h
    case h_2 type relation hcut =>
      rw [hcut] at htake
      split at h
      case isTrue hmem =>
        obtain rfl := Except.pure_ok.mp h
        exact ⟨htake, hmem⟩
      case isFalse => cases h

/-- **A relation, as written.** -/
theorem resolveRelation_ok {at_ name : Str} {value : RelationDef} {relation : ResolvedRelation}
    (h : resolveRelation where_ declared at_ name value = .ok relation) :
    match relation with
    | .fromField field subject _ => ∃ lookup, value = .fromField (.str field) (.str subject) lookup
    | .stored holders => ∃ values here, value = .holders values ∧
        List.Forall₂ (fun value holder => resolveHolder where_ declared here value = .ok holder) values
          holders := by
  cases value with
  | other => cases h
  | holders values =>
    cases values with
    | nil => cases h
    | cons first rest =>
      obtain ⟨holders, hholders, h⟩ := Except.bind_ok.mp h
      obtain rfl := Except.pure_ok.mp h
      exact ⟨_, _, rfl, List.mapM_oks hholders⟩
  | fromField field subject lookup =>
    simp only [resolveRelation] at h
    split at h
    case h_1 => cases h
    case h_2 field' hfield =>
      split at h
      case h_1 => cases h
      case h_2 subject' hsubject =>
        have hfield := asString_eq.mp (Option.filter_eq_some_iff.mp hfield).1
        have hsubject := asString_eq.mp (Option.filter_eq_some_iff.mp hsubject).1
        cases lookup with
        | undefined =>
          obtain rfl := Except.pure_ok.mp h
          exact ⟨_, by rw [hfield, hsubject]⟩
        | function lookup =>
          obtain rfl := Except.pure_ok.mp h
          exact ⟨_, by rw [hfield, hsubject]⟩
        | other => cases h

theorem sets_of_resolveRelation {at_ name : Str} {value : RelationDef} {relation : ResolvedRelation}
    (h : resolveRelation where_ declared at_ name value = .ok relation) :
    ∀ s ∈ relation.sets, s.2 ∈ declared.relationNames s.1 := by
  have hok := resolveRelation_ok h
  intro s hs
  cases relation with
  | fromField => cases hs
  | stored holders =>
    obtain ⟨values, here, -, hall⟩ := hok
    obtain ⟨holder, hholder, hread⟩ := List.mem_filterMap.mp hs
    obtain ⟨value, -, hvalue⟩ := hall.flip.exists_right hholder
    cases holder with
    | type => cases hread
    | set type relation =>
      cases hread
      obtain ⟨_, -, -, hmem⟩ := resolveHolder_ok hvalue
      exact hmem

variable {c : RuleContext Ctx} {here : Str}

/-- **A rule refers to what its text says.** -/
theorem resolveRule_ref {rule : RuleDef Ctx} {resolved : ResolvedRule Ctx}
    (h : resolveRule where_ c here rule = .ok resolved) :
    ∃ value, rule.core = .text value ∧ resolveRef where_ c here value = .ok resolved.ref := by
  obtain ⟨hcore, -⟩ := resolveRule_ok h
  obtain ⟨value, htext⟩ | hother := rule.core_eq
  · rw [htext] at hcore
    obtain ⟨ref, href, hcore⟩ := Except.bind_ok.mp hcore
    cases hcore
    exact ⟨value, htext, href⟩
  · rw [hother] at hcore
    cases hcore

theorem resolveRef_ok {value : Str} {ref : RuleRef} (h : resolveRef where_ c here value = .ok ref) :
    match ref with
    | .name name => name = value ∧ cutArrow value = none ∧ value ∈ c.own
    | .arrow relation target => cutArrow value = some (relation, target) := by
  rw [resolveRef] at h
  split at h
  case h_1 hcut =>
    split at h
    case isTrue => cases h
    case isFalse hown =>
      cases h
      exact ⟨rfl, hcut, not_not.mp hown⟩
  case h_2 relation target hcut =>
    split at h
    · cases h
    · obtain ⟨_, -, h⟩ := Except.bind_ok.mp h
      cases h
      exact hcut

theorem resolvePermit_ok {at_ name : Str} {value : PermitDef Ctx} {rules : List (ResolvedRule Ctx)}
    (h : resolvePermit where_ at_ c name value = .ok rules) : ∃ defs, value = .rules defs ∧
      List.Forall₂ (fun rule resolved => ∃ here, resolveRule where_ c here rule = .ok resolved) defs
        rules := by
  unfold resolvePermit at h
  split at h
  case h_2 => cases h
  case h_1 first rest =>
    refine ⟨first :: rest, rfl, ?_⟩
    have hall := List.mapM_oks h
    rw [← List.zipIdx_map_fst 0 (first :: rest), List.forall₂_map_left_iff]
    exact hall.imp fun rule resolved hrule => ⟨_, hrule⟩

end Parts

/-! ### The model -/

section Model

variable {where_ : Str} {declared : TypesContext} {entries : List (Str × TypeDef Ctx)}
  {types : List (Str × ResolvedObjectType Ctx)}

/-- What a rule refers to was checked. -/
theorem Resolving.rule_checked (h : Resolving where_ declared entries types) {name here : Str}
    {def_ : TypeDef Ctx} {type : ResolvedObjectType Ctx}
    (hof : Resolving.TypeOf where_ declared name def_ type) {rule : RuleDef Ctx}
    {resolved : ResolvedRule Ctx}
    (hrule : resolveRule where_ (ruleContext declared name type.relations) here rule = .ok resolved) :
    resolved.ref.checked types type = true := by
  obtain ⟨value, -, href⟩ := resolveRule_ref hrule
  cases href' : resolved.ref with
  | name own =>
    rw [href'] at href
    obtain ⟨rfl, -, hown⟩ := resolveRef_ok href
    exact hof.mem_namesOf.mp hown
  | arrow relation target =>
    rw [href'] at href
    obtain ⟨through, hthrough, htargets⟩ := resolveRef_relation href
    have hall : ∀ t ∈ through.arrowTypes, declares types t target = true := by
      intro t ht
      have htarget : some t ∈ through.targets := by
        cases through with
        | fromField field subject lookup =>
          obtain rfl := List.mem_singleton.mp ht
          exact List.mem_singleton_self _
        | stored holders =>
          obtain ⟨holder, hholder, hread⟩ := List.mem_filterMap.mp ht
          refine List.mem_map.mpr ⟨holder, hholder, ?_⟩
          cases holder with
          | type t' =>
            cases hread
            rfl
          | set => cases hread
      obtain ⟨t', -, heq, hmem⟩ := htargets _ htarget
      cases heq
      exact h.declares_of_mem hmem
    have hget : get type.relations relation = some through := hthrough
    rw [RuleRef.checked, hget]
    simpa using hall

/-- **What resolving accepts carries its checks.** -/
theorem Resolving.checked (h : Resolving where_ declared entries types) : Checked types where
  name_eq e he := by
    obtain ⟨_, -, hof⟩ := h.typeOf_of_mem he
    exact hof.name_eq
  type_isName e he := by
    have hmem : e.1 ∈ entries.map Prod.fst := h.keys ▸ List.mem_map_of_mem he
    obtain ⟨entry, hentry, heq⟩ := List.mem_map.mp hmem
    exact heq ▸ h.isName entry hentry
  relation_isName e he r hr := by
    obtain ⟨_, -, hof⟩ := h.typeOf_of_mem he
    obtain ⟨names, -, hnames⟩ := hof.names
    refine hnames.relation_isName _ ?_
    rw [hnames.relations, ← map_fst_mapEntries hof.relations]
    exact List.mem_map_of_mem hr
  permission_isName e he p hp := by
    obtain ⟨_, -, hof⟩ := h.typeOf_of_mem he
    obtain ⟨names, -, hnames⟩ := hof.names
    refine hnames.permission_isName _ ?_
    rw [hnames.permissions, ← map_fst_mapEntries hof.permissions]
    exact List.mem_map_of_mem hp
  fresh e he p hp := by
    obtain ⟨_, -, hof⟩ := h.typeOf_of_mem he
    exact hof.fresh hp
  sets e he r hr s hs := by
    obtain ⟨_, -, hof⟩ := h.typeOf_of_mem he
    obtain ⟨value, -, hvalue⟩ := exists_of_mem_mapEntries hof.relations hr
    obtain ⟨type, htype, hrelation⟩ := h.mem_relationNames (sets_of_resolveRelation hvalue s hs)
    rw [declares, htype]
    simp [ResolvedObjectType.declares, hrelation]
  rules e he p hp rule hrule := by
    obtain ⟨_, -, hof⟩ := h.typeOf_of_mem he
    obtain ⟨value, -, hvalue⟩ := exists_of_mem_mapEntries hof.permissions hp
    obtain ⟨_, -, hall⟩ := resolvePermit_ok hvalue
    obtain ⟨written, -, here, hresolve⟩ := hall.flip.exists_right hrule
    exact h.rule_checked hof hresolve

end Model

theorem resolveTypes_checked {where_ : Str} {subjects : List Str} {def_ : ObjectDef (TypeDef Ctx)}
    {types : List (Str × ResolvedObjectType Ctx)}
    (h : resolveTypes where_ subjects def_ = .ok types) :
    Checked types := by
  obtain ⟨_, -, hresolving⟩ := resolveTypes_ok h
  exact hresolving.checked

/-- **`defineModel()`**: the model, resolved. -/
def resolveModel (config : ModelConfig Ctx) (where_ : Str) : Except Failure (ResolvedModel Ctx) :=
  match config with
  | .other => throw <| refuse where_ <| js "pass \x7b subjects, types \x7d"
  | .object subjects def_ =>
    match hsubjects : subjectTypesOf where_ subjects with
    | .error e => throw e
    | .ok subjects =>
      match htypes : resolveTypes where_ subjects def_ with
      | .error e => throw e
      | .ok types => do
        refuseLoops where_ types
        refuseDataBeyondRoot where_ types
        pure
          { subjects
            types
            subject_isName := subjectTypesOf_isName hsubjects
            checked := resolveTypes_checked htypes }

/-- The entries of a model, as it is written. -/
def ModelConfig.entries : ModelConfig Ctx → List (Str × TypeDef Ctx)
  | .object _ types => types.entries
  | .other => []

/-- **A model accepted was resolved from what is written**, and passed both checks of the whole. -/
theorem resolveModel_ok {config : ModelConfig Ctx} {where_ : Str} {model : ResolvedModel Ctx}
    (h : resolveModel config where_ = .ok model) :
    Accepted where_ model ∧ ∃ declared, Resolving where_ declared config.entries model.types := by
  cases config with
  | other => cases h
  | object subjects def_ =>
    simp only [resolveModel] at h
    split at h
    case h_1 => cases h
    case h_2 names hsubjects =>
      split at h
      case h_1 => cases h
      case h_2 types htypes =>
        obtain ⟨_, hloops, h⟩ := Except.bind_ok.mp h
        obtain ⟨_, hdata, h⟩ := Except.bind_ok.mp h
        obtain rfl := Except.pure_ok.mp h
        obtain ⟨declared, -, hresolving⟩ := resolveTypes_ok htypes
        exact ⟨⟨hloops, hdata⟩, declared, hresolving⟩

end Janus.Permissions
