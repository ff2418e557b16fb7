import Janus.Js.Value
import Janus.Machinery.Insertion

/-!
# Permissions/Resolved — subjects, tuples, and a resolved model

What `can()` and `list()` read: every string already parsed, every reference already checked.
A `ResolvedModel` carries what its names keep — camelCase, so that none holds a `:`, a `#` or an `@`
— and with them `nodeKey_inj`: the key the walk cuts its path by tells every two nodes apart.
-/

namespace Janus.Permissions

open Js Insertion

/-! ## Subjects -/

/-- Something a permission is about or held by, by its type and its id. -/
structure Entity where
  type : Str
  id : Str
deriving DecidableEq

/-- Everyone who holds `relation` on an entity. -/
structure SubjectSet extends Entity where
  relation : Str
deriving DecidableEq

/-- Who a tuple is about: one entity, or everyone who holds a relation on one. -/
inductive Subject where
  | entity (e : Entity)
  | set (s : SubjectSet)
deriving DecidableEq

/-- The id a subject names. -/
def Subject.id : Subject → Str
  | .entity e => e.id
  | .set s => s.id

/-- The type a subject names. -/
def Subject.type : Subject → Str
  | .entity e => e.type
  | .set s => s.type

/-- `subject` holds `relation` on `object`. -/
structure RelationTuple where
  object : Entity
  relation : Str
  subject : Subject
deriving DecidableEq

/-- `type:id`. -/
def formatEntity (entity : Entity) : Str := entity.type ++ (58 : CodeUnit) :: entity.id

/-! ## Failures -/

/-- What a question may throw.  `outOfFuel` is the model's own, and is never thrown
(`can_ne_outOfFuel`, `list_ne_outOfFuel`). -/
inductive Failure where
  | typeError (message : Str)
  | permissionDepth (message permission : Str) (maxDepth : ℕ)
  | invalidCursor (message : Str)
  | thrown (what : Str)
  | outOfFuel
deriving DecidableEq

/-! ## The model, resolved -/

/-- Who may hold a stored relation: a subject type, or a subject set. -/
inductive Holder where
  | type (type : Str)
  | set (type relation : Str)
deriving DecidableEq

/-- Whether a stored relation admits `subject` as a holder. -/
def admits (holders : List Holder) (subject : Subject) : Bool :=
  holders.any fun holder =>
    match holder, subject with
    | .type type, .entity e => type = e.type
    | .set type relation, .set s => type = s.type ∧ relation = s.relation
    | _, _ => false

/-- A relation: stored as tuples, or read from a field.  A lookup answers an array of values, or
something that is no array. -/
inductive ResolvedRelation where
  | stored (holders : List Holder)
  | fromField (field subject : Str) (lookup : Option (Str → Except Failure (Option (List Value))))

/-- What a rule refers to: a name of the same object, or a name behind one of its relations. -/
inductive RuleRef where
  | name (name : Str)
  | arrow (relation target : Str)
deriving DecidableEq

/-- One rule of a permission.  `test`, when present, must answer `true` for it to grant. -/
structure ResolvedRule (Ctx : Type) where
  ref : RuleRef
  test : Option (Ctx → Except Failure Bool)

/-- An object type. -/
structure ResolvedObjectType (Ctx : Type) where
  name : Str
  relations : List (Str × ResolvedRelation)
  permissions : List (Str × List (ResolvedRule Ctx))

/-- Whether this type declares `name`, as a relation or as a permission. -/
def ResolvedObjectType.declares {Ctx : Type} (type : ResolvedObjectType Ctx) (name : Str) : Bool :=
  (get type.relations name).isSome || (get type.permissions name).isSome

/-- camelCase, and so without the `:` and the `#` the notation uses. -/
def isName (name : Str) : Bool :=
  match name with
  | [] => false
  | u :: rest =>
    (97 ≤ u.val && u.val ≤ 122) && rest.all fun u =>
      (65 ≤ u.val && u.val ≤ 90) || (97 ≤ u.val && u.val ≤ 122) || (48 ≤ u.val && u.val ≤ 57)

/-- The subject sets a relation may be held by. -/
def ResolvedRelation.sets : ResolvedRelation → List (Str × Str)
  | .stored holders => holders.filterMap fun
    | .set type relation => some (type, relation)
    | .type _ => none
  | .fromField .. => []

/-- The types an arrow through a relation reaches. -/
def ResolvedRelation.arrowTypes : ResolvedRelation → List Str
  | .stored holders => holders.filterMap fun
    | .type type => some type
    | .set .. => none
  | .fromField _ subject _ => [subject]

section Checked

variable {Ctx : Type} (types : List (Str × ResolvedObjectType Ctx))

/-- Whether `type` is an object type that declares `name`. -/
def declares (type name : Str) : Bool := (get types type).any (·.declares name)

/-- What a rule of `type` may refer to: a name of its own, or a name every type behind one of its
relations declares. -/
def RuleRef.checked (type : ResolvedObjectType Ctx) : RuleRef → Bool
  | .name own => type.declares own
  | .arrow through target => (get type.relations through).any fun r =>
    r.arrowTypes.all fun t => declares types t target

/-- What resolving checked of the object types. -/
structure Checked : Prop where
  name_eq : ∀ e ∈ types, e.2.name = e.1
  type_isName : ∀ e ∈ types, isName e.1
  relation_isName : ∀ e ∈ types, ∀ r ∈ e.2.relations, isName r.1
  permission_isName : ∀ e ∈ types, ∀ p ∈ e.2.permissions, isName p.1
  /-- a name is a relation or a permission, never both -/
  fresh : ∀ e ∈ types, ∀ p ∈ e.2.permissions, get e.2.relations p.1 = none
  /-- a subject set names an object type and one of its relations -/
  sets : ∀ e ∈ types, ∀ r ∈ e.2.relations, ∀ s ∈ r.2.sets, declares types s.1 s.2
  rules : ∀ e ∈ types, ∀ p ∈ e.2.permissions, ∀ rule ∈ p.2, rule.ref.checked types e.2

end Checked

/-- A resolved model: its user types, its object types by name, and what resolving checked. -/
structure ResolvedModel (Ctx : Type) where
  subjects : List Str
  types : List (Str × ResolvedObjectType Ctx)
  subject_isName : ∀ s ∈ subjects, isName s
  checked : Checked types

variable {Ctx : Type}

/-- The key of a node's name: `type:id#name`. -/
def nodeKey (entity : Entity) (name : Str) : Str := formatEntity entity ++ (35 : CodeUnit) :: name

/-- A name is made of letters and digits. -/
theorem isName_mem {name : Str} (h : isName name) {u : CodeUnit} (hu : u ∈ name) :
    (65 ≤ u.val && u.val ≤ 90) || (97 ≤ u.val && u.val ≤ 122) || (48 ≤ u.val && u.val ≤ 57) := by
  cases name with
  | nil => cases hu
  | cons v rest =>
    simp only [isName, Bool.and_eq_true, List.all_eq_true] at h
    rcases List.mem_cons.mp hu with rfl | hu
    · simp only [h.1.1, h.1.2, Bool.and_self, Bool.or_true, Bool.true_or]
    · exact h.2 _ hu

/-- A name holds none of `:`, `#` and `@`. -/
theorem isName_notMem {name : Str} (h : isName name) :
    (58 : CodeUnit) ∉ name ∧ (35 : CodeUnit) ∉ name ∧ (64 : CodeUnit) ∉ name :=
  ⟨fun hm => absurd (isName_mem h hm) (by decide), fun hm => absurd (isName_mem h hm) (by decide),
    fun hm => absurd (isName_mem h hm) (by decide)⟩

/-- …nor a NUL. -/
theorem isName_nul {name : Str} (h : isName name) : (0 : CodeUnit) ∉ name := fun hm =>
  absurd (isName_mem h hm) (by decide)

theorem isName_staff : isName (js "staff") = true := by decide

theorem staff_isName : ∀ s ∈ [js "staff"], isName s = true := by decide

/-- **A node's key is read back**: no type and no name holds a separator. -/
theorem nodeKey_inj {a b : Entity} {m n : Str} (ha : isName a.type) (hb : isName b.type)
    (hm : isName m) (hn : isName n) (h : nodeKey a m = nodeKey b n) : a = b ∧ m = n := by
  obtain ⟨he, rfl⟩ := append_cons_inj' (isName_notMem hm).2.1 (isName_notMem hn).2.1 h
  obtain ⟨ht, hi⟩ := append_cons_inj (isName_notMem ha).1 (isName_notMem hb).1 he
  cases a
  cases b
  simp_all

end Janus.Permissions
