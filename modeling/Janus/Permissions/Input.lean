import Janus.Permissions.Resolved
import Janus.Machinery.Outcome

/-!
# Permissions/Input — reading what a caller passed

What `can()` and `list()` refuse before they ask a store, and the subject as the store compares it:
decided by its type, not its shape (`subjectOf`).
-/

namespace Janus.Permissions

open Js Insertion

variable {Ctx : Type}

/-- What no part of an id may hold: `@`, `#` or a parenthesis. -/
def isReserved (u : CodeUnit) : Bool := u = 64 || u = 35 || u = 40 || u = 41

/-- A non-empty string without a reserved unit. -/
def isId (id : Str) : Bool := id ≠ [] && !id.any isReserved

def idOf (value : Value) (what where_ : Str) : Except Failure Str :=
  match value.asString with
  | some id => if isId id then pure id else refused
  | none => refused
where
  refused : Except Failure Str := throw <| .typeError <|
    where_ ++ js ": " ++ what ++ js " must be a non-empty string without @, # or parentheses"

def typeOf (model : ResolvedModel Ctx) (name where_ : Str) :
    Except Failure (ResolvedObjectType Ctx) :=
  match get model.types name with
  | some type => pure type
  | none => throw <| .typeError <|
    where_ ++ js ": \"" ++ name ++ js "\" is not an object type of the model"

/-- An object a caller passed: its entity, and the data it carries. -/
structure ObjectArg where
  type : Str
  id : Str
  data : Record

def objectOf (model : ResolvedModel Ctx) (value : Arg) (where_ : Str) : Except Failure ObjectArg :=
  match value with
  | .record r =>
    match (r.field (js "type")).asString with
    | some type => do
      let _ ← typeOf model type where_
      let id ← idOf (r.field (js "id")) (js "the object id") where_
      pure ⟨type, id, r⟩
    | none => refused
  | _ => refused
where
  refused : Except Failure ObjectArg := throw <| .typeError <|
    where_ ++ js ": the object must be \x7b type, id, …its fields \x7d"

/-- The subject as the store compares it.  A value of a user type is that user, whatever its fields
— unless `setOf()` made it; a value of an object type is a set when its `relation` is a string. -/
def subjectOf (model : ResolvedModel Ctx) (value : Arg) (where_ : Str) : Except Failure Subject :=
  match value with
  | .record r =>
    match (r.field (js "type")).asString with
    | some typeName => do
      let id ← idOf (r.field (js "id")) (js "the subject id") where_
      let isUserType := model.subjects.contains typeName
      let isSet := r.marked
      if isUserType && !isSet then return .entity ⟨typeName, id⟩
      if isUserType && isSet && (get model.types typeName).isNone then
        throw <| .typeError <|
          where_ ++ js ": " ++ typeName ++ js " is a user type the model does not declare as an " ++
          js "object type, so " ++ typeName ++ js "#" ++ (r.field (js "relation")).toText ++
          js " is no subject set"
      let type ← typeOf model typeName where_
      match (r.field (js "relation")).asString with
      | none => return .entity ⟨type.name, id⟩
      | some relation =>
        if (get type.relations relation).isNone then
          throw <| .typeError <|
            where_ ++ js ": \"" ++ relation ++ js "\" is not a relation of " ++ type.name ++
            js ", so " ++ type.name ++ js "#" ++ relation ++ js " is no subject set"
        return .set ⟨⟨type.name, id⟩, relation⟩
    | none => refused
  | _ => refused
where
  refused : Except Failure Subject := throw <| .typeError <|
    where_ ++ js ": the subject must be a user, or \x7b type, id \x7d"

/-- What an issue says about a string no store can keep. -/
def UNSTORABLE : Str := js "holds a NUL character or a lone surrogate, which no store can keep"

/-- What a write is about: the entity as the store keeps it, its type, and what its relation
admits. -/
structure TargetOf (Ctx : Type) where
  entity : Entity
  type : ResolvedObjectType Ctx
  holders : List Holder

/-- The object and stored relation a write is about.  Refuses a relation read from a field. -/
def targetOf (model : ResolvedModel Ctx) (object : Arg) (relation where_ : Str) :
    Except Failure (TargetOf Ctx) := do
  let target ← objectOf model object where_
  let type ← typeOf model target.type where_
  match get type.relations relation with
  | none =>
    throw <| .typeError <|
      where_ ++ js ": \"" ++ relation ++ js "\" is not a relation of " ++ type.name
  | some (.fromField field _ _) =>
    throw <| .typeError <|
      where_ ++ js ": " ++ type.name ++ js "." ++ relation ++ js " is read from " ++ field ++
        js "; there is nothing to store — change the " ++ type.name ++ js " instead"
  | some (.stored holders) =>
    -- A tuple no store can keep is refused before one is asked.
    if !isStorable target.id then
      throw <| .typeError <| where_ ++ js ": the object id " ++ UNSTORABLE
    else pure ⟨⟨target.type, target.id⟩, type, holders⟩

/-- A tuple a write may hold: a stored relation, and a holder it admits. -/
def tupleOf (model : ResolvedModel Ctx) (object : Arg) (relation : Str) (subject : Arg)
    (where_ : Str) : Except Failure RelationTuple := do
  let target ← targetOf model object relation where_
  let who ← subjectOf model subject where_
  if !isStorable who.id then
    throw <| .typeError <| where_ ++ js ": the subject id " ++ UNSTORABLE
  else if !admits target.holders who then
    throw <| .typeError <| where_ ++ js ": " ++ target.type.name ++ js "." ++ relation ++
      js " is not held by " ++
      match who with
      | .entity e => e.type
      | .set s => s.type ++ js "#" ++ s.relation
  else pure ⟨target.entity, relation, who⟩

/-! ## What was read -/

theorem asString_eq {v : Value} {s : Str} : v.asString = some s ↔ v = .str s := by
  cases v <;> simp [Value.asString]

theorem idOf_ok {value : Value} {what where_ id : Str} (h : idOf value what where_ = .ok id) :
    value = .str id ∧ isId id = true := by
  rw [idOf] at h
  split at h
  case h_1 s hs =>
    split at h
    case isTrue hid =>
      obtain rfl := Except.pure_ok.mp h
      exact ⟨asString_eq.mp hs, hid⟩
    case isFalse => cases h
  case h_2 => cases h

theorem typeOf_ok {model : ResolvedModel Ctx} {name where_ : Str} {type : ResolvedObjectType Ctx}
    (h : typeOf model name where_ = .ok type) : get model.types name = some type := by
  rw [typeOf] at h
  split at h
  case h_1 ht => exact Except.pure_ok.mp h ▸ ht
  case h_2 => cases h

theorem objectOf_ok {model : ResolvedModel Ctx} {value : Arg} {where_ : Str} {root : ObjectArg}
    (h : objectOf model value where_ = .ok root) :
    value = .record root.data ∧ root.data.field (js "type") = .str root.type ∧
      root.data.field (js "id") = .str root.id ∧ isId root.id = true := by
  unfold objectOf at h
  split at h
  case h_2 => cases h
  case h_1 r =>
    split at h
    case h_2 => cases h
    case h_1 type ht =>
      obtain ⟨_, _, h⟩ := Except.bind_ok.mp h
      obtain ⟨id, hid, h⟩ := Except.bind_ok.mp h
      obtain rfl := Except.pure_ok.mp h
      obtain ⟨hv, hid⟩ := idOf_ok hid
      exact ⟨rfl, asString_eq.mp ht, hv, hid⟩

/-- …of a type the model declares. -/
theorem objectOf_type {model : ResolvedModel Ctx} {value : Arg} {where_ : Str} {root : ObjectArg}
    (h : objectOf model value where_ = .ok root) : ∃ type, get model.types root.type =
    some type := by
  unfold objectOf at h
  split at h
  case h_2 => cases h
  split at h
  case h_2 => cases h
  obtain ⟨type, htype, h⟩ := Except.bind_ok.mp h
  obtain ⟨id, -, h⟩ := Except.bind_ok.mp h
  obtain rfl := Except.pure_ok.mp h
  exact ⟨type, typeOf_ok htype⟩

/-- …and an object of a declared type with an id is read. -/
theorem objectOf_of {model : ResolvedModel Ctx} {r : Record} {where_ type id : Str}
    {t : ResolvedObjectType Ctx} (ht : r.field (js "type") = .str type)
    (hi : r.field (js "id") = .str id) (hid : isId id = true)
      (hmodel : get model.types type = some t) :
    objectOf model (.record r) where_ = .ok ⟨type, id, r⟩ := by
  unfold objectOf
  simp only [ht, hi, Value.asString, typeOf, hmodel, idOf, hid, if_true]
  rfl

/-- What `subjectOf` reads a value of `type` and `id` as: a user, whatever its fields, unless it is
marked; else a set when its `relation` is a string. -/
def readAs (isUserType : Bool) (r : Record) (type id : Str) : Subject :=
  if isUserType && !r.marked then .entity ⟨type, id⟩
  else
    match (r.field (js "relation")).asString with
    | none => .entity ⟨type, id⟩
    | some relation => .set ⟨⟨type, id⟩, relation⟩

theorem readAs_id (isUserType : Bool) (r : Record) (type id : Str) :
    (readAs isUserType r type id).id = id := by
  rw [readAs]
  split
  · rfl
  · split <;> rfl

theorem readAs_type (isUserType : Bool) (r : Record) (type id : Str) :
    (readAs isUserType r type id).type = type := by
  rw [readAs]
  split
  · rfl
  · split <;> rfl

theorem subjectOf_ok {model : ResolvedModel Ctx} {value : Arg} {where_ : Str} {who : Subject}
    (h : subjectOf model value where_ = .ok who) :
    ∃ r type id, value = .record r ∧ r.field (js "type") = .str type ∧
      r.field (js "id") = .str id ∧ isId id = true ∧
      who = readAs (model.subjects.contains type) r type id ∧ isName type = true := by
  unfold subjectOf at h
  split at h
  case h_2 => cases h
  case h_1 r =>
    split at h
    case h_2 => cases h
    case h_1 type ht =>
      obtain ⟨id, hid, h⟩ := Except.bind_ok.mp h
      obtain ⟨hv, hid⟩ := idOf_ok hid
      refine ⟨r, type, id, rfl, asString_eq.mp ht, hv, hid, ?_⟩
      dsimp only at h
      rw [readAs]
      split at h
      case isTrue huser =>
        rw [if_pos huser]
        have hmem : type ∈ model.subjects := by simp_all
        exact ⟨(Except.pure_ok.mp h).symm, model.subject_isName type hmem⟩
      case isFalse huser =>
        rw [if_neg huser]
        split at h
        · cases h
        obtain ⟨t, htype, h⟩ := Except.bind_ok.mp h
        have hentry := mem_of_get (typeOf_ok htype)
        have hname : t.name = type := model.checked.name_eq _ hentry
        refine ⟨?_, model.checked.type_isName _ hentry⟩
        split at h
        case h_1 => rw [← Except.pure_ok.mp h, hname]
        case h_2 =>
          split at h
          · cases h
          rw [← Except.pure_ok.mp h, hname]

/-- …and a user with an id is read as that user. -/
theorem subjectOf_of {model : ResolvedModel Ctx} {r : Record} {where_ type id : Str}
    (ht : r.field (js "type") = .str type) (hi : r.field (js "id") = .str id) (hid : isId id = true)
    (huser : model.subjects.contains type = true) (hmarked : r.marked = false) :
    subjectOf model (.record r) where_ = .ok (.entity ⟨type, id⟩) := by
  unfold subjectOf
  simp only [ht, hi, Value.asString, idOf, hid, if_true, huser, hmarked]
  rfl

/-- The relation of a set is one its type declares. -/
theorem subjectOf_relation {model : ResolvedModel Ctx} {value : Arg} {where_ : Str} {s : SubjectSet}
    (h : subjectOf model value where_ = .ok (.set s)) : isName s.relation = true := by
  unfold subjectOf at h
  split at h
  case h_2 => cases h
  split at h
  case h_2 => cases h
  obtain ⟨id, -, h⟩ := Except.bind_ok.mp h
  dsimp only at h
  split at h
  · cases h
  split at h
  · cases h
  obtain ⟨t, htype, h⟩ := Except.bind_ok.mp h
  split at h
  case h_1 => cases h
  case h_2 relation _ =>
    split at h
    case isTrue => cases h
    case isFalse hdeclared =>
      cases h
      obtain ⟨r, hr⟩ : ∃ r, Insertion.get t.relations relation = some r :=
        Option.isSome_iff_exists.mp (by simpa [Option.isSome_iff_ne_none] using hdeclared)
      exact model.checked.relation_isName _ (mem_of_get (typeOf_ok htype)) _ (mem_of_get hr)

/-- **What the core admits a store is given**: types and relations are names, and ids hold nothing
the notation reads. -/
structure RelationTuple.WellFormed (tuple : RelationTuple) : Prop where
  objectType : isName tuple.object.type = true
  objectId : isId tuple.object.id = true
  relation : isName tuple.relation = true
  subjectType : isName tuple.subject.type = true
  subjectId : isId tuple.subject.id = true
  subjectRelation : ∀ s, tuple.subject = .set s → isName s.relation = true

theorem targetOf_ok {model : ResolvedModel Ctx} {object : Arg} {relation where_ : Str}
    {target : TargetOf Ctx} (h : targetOf model object relation where_ = .ok target) :
    isName target.entity.type = true ∧ isId target.entity.id = true ∧ isName relation = true := by
  obtain ⟨root, hroot, h⟩ := Except.bind_ok.mp h
  obtain ⟨type, htype, h⟩ := Except.bind_ok.mp h
  have hentry := mem_of_get (typeOf_ok htype)
  split at h
  case h_1 => cases h
  case h_2 => cases h
  case h_3 holders hrelation =>
    split at h
    · cases h
    · obtain rfl := Except.pure_ok.mp h
      exact ⟨model.checked.type_isName _ hentry, (objectOf_ok hroot).2.2.2,
        model.checked.relation_isName _ hentry _ (mem_of_get hrelation)⟩

/-- **What `tupleOf` reads is well formed**, about the target it was read for. -/
theorem tupleOf_ok {model : ResolvedModel Ctx} {object subject : Arg} {relation where_ : Str}
    {tuple : RelationTuple} (h : tupleOf model object relation subject where_ = .ok tuple) :
    tuple.WellFormed ∧ tuple.relation = relation ∧
      ∃ target, targetOf model object relation where_ = .ok target ∧
        tuple.object = target.entity := by
  obtain ⟨target, htarget, h⟩ := Except.bind_ok.mp h
  obtain ⟨who, hwho, h⟩ := Except.bind_ok.mp h
  obtain ⟨htype, hid, hrelation⟩ := targetOf_ok htarget
  split at h
  · cases h
  split at h
  · cases h
  obtain rfl := Except.pure_ok.mp h
  obtain ⟨r, type, id, -, -, -, hsid, hread, hstype⟩ := subjectOf_ok hwho
  refine ⟨⟨htype, hid, hrelation, ?_, ?_, ?_⟩, rfl, target, htarget, rfl⟩
  · rwa [hread, readAs_type]
  · rwa [hread, readAs_id]
  · rintro s rfl
    exact subjectOf_relation hwho

/-! A refusal is a `TypeError`. -/

section Refused

variable {model : ResolvedModel Ctx} {value : Arg} {where_ : Str} {failure : Failure}

theorem idOf_error {value : Value} {what : Str} (h : idOf value what where_ = .error failure) :
    ∃ message, failure = .typeError message := by
  rw [idOf] at h
  split at h
  · split at h
    · cases h
    · exact ⟨_, (Except.error.inj h).symm⟩
  · exact ⟨_, (Except.error.inj h).symm⟩

theorem typeOf_error {name : Str} (h : typeOf model name where_ = .error failure) :
    ∃ message, failure = .typeError message := by
  rw [typeOf] at h
  split at h
  · cases h
  · exact ⟨_, (Except.error.inj h).symm⟩

theorem objectOf_error (h : objectOf model value where_ = .error failure) :
    ∃ message, failure = .typeError message := by
  unfold objectOf at h
  split at h
  case h_2 => exact ⟨_, (Except.error.inj h).symm⟩
  split at h
  case h_2 => exact ⟨_, (Except.error.inj h).symm⟩
  rcases Except.bind_error.mp h with h | ⟨_, _, h⟩
  · exact typeOf_error h
  rcases Except.bind_error.mp h with h | ⟨_, _, h⟩
  · exact idOf_error h
  · cases h

theorem subjectOf_error (h : subjectOf model value where_ = .error failure) :
    ∃ message, failure = .typeError message := by
  unfold subjectOf at h
  split at h
  case h_2 => exact ⟨_, (Except.error.inj h).symm⟩
  split at h
  case h_2 => exact ⟨_, (Except.error.inj h).symm⟩
  rcases Except.bind_error.mp h with h | ⟨_, _, h⟩
  · exact idOf_error h
  dsimp only at h
  split at h
  · cases h
  split at h
  · exact ⟨_, (Except.error.inj h).symm⟩
  rcases Except.bind_error.mp h with h | ⟨_, _, h⟩
  · exact typeOf_error h
  split at h
  · cases h
  · split at h
    · exact ⟨_, (Except.error.inj h).symm⟩
    · cases h

end Refused

end Janus.Permissions
