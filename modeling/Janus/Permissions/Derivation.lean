import Janus.Permissions.Walk
import Janus.Machinery.Cut

/-!
# Permissions/Derivation — what the model means

`Holds q e n`: in the situation `q` — a model, the tuples stored, the data objects carry, a `ctx`
and a subject — the subject holds `n` on `e`, by a finite derivation.  Every rule has at most one
premise, so a derivation is a chain of goals (`holds_iff_derives`), and the cut search of
`Machinery/Cut` applies.
-/

namespace Janus.Permissions

open Js Insertion

variable {Ctx : Type}

/-- What a question is asked of: the model, the tuples stored, the data the objects carry, the `ctx`
and the subject. -/
structure Situation (Ctx : Type) where
  model : ResolvedModel Ctx
  tuples : List RelationTuple
  fields : Entity → Option Record
  ctx : Option Ctx
  subject : Subject

variable (q : Situation Ctx)

/-- A rule that grants: its test, when it has one, answers `true` on the `ctx`. -/
def Grants (rule : ResolvedRule Ctx) : Prop :=
  ∀ test ∈ rule.test, ∃ ctx, q.ctx = some ctx ∧ test ctx = .ok true

/-- The object `e` carries the id of `other` in this field. -/
def Carries (e : Entity) (field : Str) (id : Str) : Prop :=
  ∃ data, q.fields e = some data ∧ data.field field = .str id ∧ isStorable id = true

/-- The relation `relation` of `e`, in the model. -/
def RelationOf (e : Entity) (relation : Str) (r : ResolvedRelation) : Prop :=
  ∃ type, get q.model.types e.type = some type ∧ get type.relations relation = some r

/-- The rules of the permission `permission` of `e`, in the model. -/
def RulesOf (e : Entity) (permission : Str) (rules : List (ResolvedRule Ctx)) : Prop :=
  ∃ type, get q.model.types e.type = some type ∧ get type.permissions permission = some rules

/-- `other` is directly related to `e`: by a tuple the relation admits, or by a field. -/
inductive Related : Entity → Str → Entity → Prop
  | tuple {e other : Entity} {relation : Str} {holders : List Holder} :
      RelationOf q e relation (.stored holders) → admits holders (.entity other) = true →
      ⟨e, relation, .entity other⟩ ∈ q.tuples → Related e relation other
  | field {e : Entity} {relation field subject id : Str}
      {lookup : Option (Str → Except Failure (Option (List Value)))} :
      RelationOf q e relation (.fromField field subject lookup) → Carries q e field id →
      Related e relation ⟨subject, id⟩

/-- **What the model means.** -/
inductive Holds : Entity → Str → Prop
  /-- a stored tuple names the subject, on a relation that admits it -/
  | tuple {e : Entity} {name : Str} {holders : List Holder} :
      RelationOf q e name (.stored holders) → admits holders q.subject = true →
      ⟨e, name, q.subject⟩ ∈ q.tuples → Holds e name
  /-- the subject holds the relation of a stored subject set the relation admits -/
  | set {e : Entity} {name : Str} {holders : List Holder} {s : SubjectSet} :
      RelationOf q e name (.stored holders) → admits holders (.set s) = true →
      ⟨e, name, .set s⟩ ∈ q.tuples → Holds s.toEntity s.relation → Holds e name
  /-- the object's field is the subject's id -/
  | field {e : Entity} {name field subject id : Str}
      {lookup : Option (Str → Except Failure (Option (List Value)))} :
      RelationOf q e name (.fromField field subject lookup) → Carries q e field id →
      q.subject = .entity ⟨subject, id⟩ → Holds e name
  /-- a rule names another name the subject holds on the same object -/
  | name {e : Entity} {name other : Str} {rules : List (ResolvedRule Ctx)}
      {rule : ResolvedRule Ctx} :
      RulesOf q e name rules → rule ∈ rules → Grants q rule → rule.ref = .name other →
      Holds e other → Holds e name
  /-- a rule names what the subject holds on a directly related object -/
  | arrow {e other : Entity} {name relation target : Str} {rules : List (ResolvedRule Ctx)}
      {rule : ResolvedRule Ctx} :
      RulesOf q e name rules → rule ∈ rules → Grants q rule →
      rule.ref = .arrow relation target → Related q e relation other → Holds other target →
      Holds e name

/-! ## More rules derive more -/

/-- `q'` has every relation, rule, tuple and field of `q`. -/
structure Extends (q q' : Situation Ctx) : Prop where
  relation {e name r} : RelationOf q e name r → RelationOf q' e name r
  rules {e name rules} : RulesOf q e name rules → ∃ rules', RulesOf q' e name rules' ∧
    rules ⊆ rules'
  tuples : q.tuples ⊆ q'.tuples
  fields {e data} : q.fields e = some data → q'.fields e = some data
  ctx : q.ctx = q'.ctx
  subject : q.subject = q'.subject

theorem Extends.carries {q q' : Situation Ctx} (h : Extends q q') {e : Entity} {field id : Str}
    (hc : Carries q e field id) : Carries q' e field id :=
  hc.imp fun _ ⟨hd, hv⟩ => ⟨h.fields hd, hv⟩

theorem Extends.grants {q q' : Situation Ctx} (h : Extends q q') {rule : ResolvedRule Ctx}
    (hg : Grants q rule) : Grants q' rule := fun test ht =>
  (hg test ht).imp fun _ ⟨hc, hv⟩ => ⟨h.ctx ▸ hc, hv⟩

theorem Extends.related {q q' : Situation Ctx} (h : Extends q q') {e other : Entity}
    {relation : Str} (hr : Related q e relation other) : Related q' e relation other := by
  cases hr with
  | tuple hr ha ht => exact .tuple (h.relation hr) ha (h.tuples ht)
  | field hr hc => exact .field (h.relation hr) (h.carries hc)

theorem Holds.mono {q q' : Situation Ctx} (h : Extends q q') {e : Entity} {name : Str}
    (hd : Holds q e name) : Holds q' e name := by
  induction hd with
  | tuple hr ha ht => exact .tuple (h.relation hr) (h.subject ▸ ha) (h.subject ▸ h.tuples ht)
  | set hr ha ht _ ih => exact .set (h.relation hr) ha (h.tuples ht) ih
  | field hr hc hs => exact .field (h.relation hr) (h.carries hc) (h.subject ▸ hs)
  | name hr hm hg href _ ih =>
    obtain ⟨_, hr', hsub⟩ := h.rules hr
    exact .name hr' (hsub hm) (h.grants hg) href ih
  | arrow hr hm hg href hrel _ ih =>
    obtain ⟨_, hr', hsub⟩ := h.rules hr
    exact .arrow hr' (hsub hm) (h.grants hg) href (h.related hrel) ih

/-! ## Derivations as chains of goals -/

/-- A name on an object. -/
abbrev Goal := Entity × Str

/-- Goals held at once. -/
inductive Base : Goal → Prop
  | tuple {e : Entity} {name : Str} {holders : List Holder} :
      RelationOf q e name (.stored holders) → admits holders q.subject = true →
      ⟨e, name, q.subject⟩ ∈ q.tuples → Base (e, name)
  | field {e : Entity} {name field subject id : Str}
      {lookup : Option (Str → Except Failure (Option (List Value)))} :
      RelationOf q e name (.fromField field subject lookup) → Carries q e field id →
      q.subject = .entity ⟨subject, id⟩ → Base (e, name)

/-- Goals held when another is. -/
inductive Edge : Goal → Goal → Prop
  | set {e : Entity} {name : Str} {holders : List Holder} {s : SubjectSet} :
      RelationOf q e name (.stored holders) → admits holders (.set s) = true →
      ⟨e, name, .set s⟩ ∈ q.tuples → Edge (e, name) (s.toEntity, s.relation)
  | name {e : Entity} {name other : Str} {rules : List (ResolvedRule Ctx)}
      {rule : ResolvedRule Ctx} :
      RulesOf q e name rules → rule ∈ rules → Grants q rule → rule.ref = .name other →
      Edge (e, name) (e, other)
  | arrow {e other : Entity} {name relation target : Str} {rules : List (ResolvedRule Ctx)}
      {rule : ResolvedRule Ctx} :
      RulesOf q e name rules → rule ∈ rules → Grants q rule →
      rule.ref = .arrow relation target → Related q e relation other →
      Edge (e, name) (other, target)

/-- Goals held when another of the same object is. -/
inductive Names : Goal → Goal → Prop
  | name {e : Entity} {name other : Str} {rules : List (ResolvedRule Ctx)}
      {rule : ResolvedRule Ctx} :
      RulesOf q e name rules → rule ∈ rules → Grants q rule → rule.ref = .name other →
      Names (e, name) (e, other)

/-- Goals held when one behind a relation is. -/
inductive Crosses : Goal → Goal → Prop
  | set {e : Entity} {name : Str} {holders : List Holder} {s : SubjectSet} :
      RelationOf q e name (.stored holders) → admits holders (.set s) = true →
      ⟨e, name, .set s⟩ ∈ q.tuples → Crosses (e, name) (s.toEntity, s.relation)
  | arrow {e other : Entity} {name relation target : Str} {rules : List (ResolvedRule Ctx)}
      {rule : ResolvedRule Ctx} :
      RulesOf q e name rules → rule ∈ rules → Grants q rule →
      rule.ref = .arrow relation target → Related q e relation other →
      Crosses (e, name) (other, target)

theorem edge_iff {a b : Goal} : Edge q a b ↔ Names q a b ∨ Crosses q a b := by
  constructor
  · intro h
    cases h with
    | set h ha ht => exact Or.inr (.set h ha ht)
    | name h hr hg hn => exact Or.inl (.name h hr hg hn)
    | arrow h hr hg hn hrel => exact Or.inr (.arrow h hr hg hn hrel)
  · rintro (h | h)
    · cases h with
      | name h hr hg hn => exact .name h hr hg hn
    · cases h with
      | set h ha ht => exact .set h ha ht
      | arrow h hr hg hn hrel => exact .arrow h hr hg hn hrel

theorem holds_iff_derives {e : Entity} {n : Str} :
    Holds q e n ↔ Cut.Derives (Base q) (Edge q) (e, n) := by
  constructor
  · intro h
    induction h with
    | tuple h ha ht => exact .base (.tuple h ha ht)
    | field h hf hs => exact .base (.field h hf hs)
    | set h ha ht _ ih => exact .step (.set h ha ht) ih
    | name h hr hg hn _ ih => exact .step (.name h hr hg hn) ih
    | arrow h hr hg hn hrel _ ih => exact .step (.arrow h hr hg hn hrel) ih
  · suffices ∀ a, Cut.Derives (Base q) (Edge q) a → Holds q a.1 a.2 from this _
    intro a h
    induction h with
    | base h =>
      cases h with
      | tuple h ha ht => exact .tuple h ha ht
      | field h hf hs => exact .field h hf hs
    | step h _ ih =>
      cases h with
      | set h ha ht => exact .set h ha ht ih
      | name h hr hg hn => exact .name h hr hg hn ih
      | arrow h hr hg hn hrel => exact .arrow h hr hg hn hrel ih

/-- A goal its type declares: what every derivable goal is, and every goal on the walk's path. -/
def Declared (a : Goal) : Prop :=
  ∃ type, get q.model.types a.1.type = some type ∧ type.declares a.2 = true

theorem RelationOf.declared {e : Entity} {name : Str} {r : ResolvedRelation}
    (h : RelationOf q e name r) : Declared q (e, name) := by
  obtain ⟨type, ht, hr⟩ := h
  exact ⟨type, ht, by simp [ResolvedObjectType.declares, hr]⟩

theorem RulesOf.declared {e : Entity} {name : Str} {rules : List (ResolvedRule Ctx)}
    (h : RulesOf q e name rules) : Declared q (e, name) := by
  obtain ⟨type, ht, hr⟩ := h
  exact ⟨type, ht, by simp [ResolvedObjectType.declares, hr]⟩

theorem Base.declared {a : Goal} (h : Base q a) : Declared q a := by
  cases h with
  | tuple h _ _ => exact h.declared
  | field h _ _ => exact h.declared

theorem Edge.declared {a b : Goal} (h : Edge q a b) : Declared q a := by
  cases h with
  | set h _ _ => exact h.declared
  | name h _ _ _ => exact h.declared
  | arrow h _ _ _ _ => exact h.declared

theorem Holds.declared {e : Entity} {name : Str} (h : Holds q e name) : Declared q (e, name) := by
  cases (holds_iff_derives q).mp h with
  | base h => exact h.declared
  | step h _ => exact h.declared

/-- **Declared goals have keys of their own.** -/
theorem nodeKey_declared {a b : Goal} (ha : Declared q a) (hb : Declared q b)
    (h : nodeKey a.1 a.2 = nodeKey b.1 b.2) : a = b := by
  have hname : ∀ {c : Goal}, Declared q c → isName c.1.type ∧ isName c.2 := by
    rintro c ⟨type, ht, hd⟩
    have hm := mem_of_get ht
    refine ⟨q.model.checked.type_isName _ hm, ?_⟩
    rcases (Bool.or_eq_true ..).mp hd with hd | hd
    · obtain ⟨r, hr⟩ := Option.isSome_iff_exists.mp hd
      exact q.model.checked.relation_isName _ hm _ (mem_of_get hr)
    · obtain ⟨r, hr⟩ := Option.isSome_iff_exists.mp hd
      exact q.model.checked.permission_isName _ hm _ (mem_of_get hr)
  obtain ⟨he, hn⟩ := nodeKey_inj (hname ha).1 (hname hb).1 (hname ha).2 (hname hb).2 h
  exact Prod.ext he hn

/-- A relation and a permission never share a name. -/
theorem not_both {e : Entity} {name : Str} {type : ResolvedObjectType Ctx} {r : ResolvedRelation}
    (ht : get q.model.types e.type = some type) (hr : get type.relations name = some r) :
    get type.permissions name = none := by
  cases hp : get type.permissions name with
  | none => rfl
  | some rules =>
    have := q.model.checked.fresh _ (mem_of_get ht) _ (mem_of_get hp)
    rw [hr] at this
    cases this

end Janus.Permissions
