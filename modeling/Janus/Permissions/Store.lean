import Janus.Permissions.Resolved
import Janus.Machinery.Paging

/-!
# Permissions/Store — the relation store port

A store answers one-hop questions about stored tuples, or throws.  `Keeps` is what its answers are
held to, in whatever order it gives them; `ofTuples` is a store that keeps any list of tuples.
-/

namespace Janus.Permissions

open Js Paging Insertion

/-- Which objects a page lists: those of one type where a subject holds a relation. -/
structure ObjectPageRequest where
  type : Str
  relation : Str
  subject : Subject
  after : Option Str
  limit : ℕ

/-- The questions `can()` and `list()` ask of a relation store. -/
structure RelationStore where
  has : RelationTuple → Except Failure Bool
  findSubjectSets : Entity → Str → Except Failure (List SubjectSet)
  findEntities : Entity → Str → Except Failure (List Entity)
  findObjects : ObjectPageRequest → Except Failure (Page Str)

/-- **A store that keeps exactly `tuples`**: whatever it answers is true of them, and complete.  It
may throw, and its lists come in any order. -/
structure Keeps (store : RelationStore) (tuples : List RelationTuple) : Prop where
  has {tuple b} : store.has tuple = .ok b → (b = true ↔ tuple ∈ tuples)
  findSubjectSets {object relation sets} : store.findSubjectSets object relation = .ok sets →
    ∀ s, s ∈ sets ↔ ⟨object, relation, .set s⟩ ∈ tuples
  findEntities {object relation entities} : store.findEntities object relation = .ok entities →
    ∀ e, e ∈ entities ↔ ⟨object, relation, .entity e⟩ ∈ tuples
  findObjects {request page} : 0 < request.limit → store.findObjects request = .ok page →
    IsPage (fun id => ⟨⟨request.type, id⟩, request.relation, request.subject⟩ ∈ tuples)
      request.after page

/-- A store never throws the model's own failure. -/
def Terminates (store : RelationStore) : Prop :=
  (∀ tuple, store.has tuple ≠ .error .outOfFuel) ∧
  (∀ object relation, store.findSubjectSets object relation ≠ .error .outOfFuel) ∧
  (∀ object relation, store.findEntities object relation ≠ .error .outOfFuel) ∧
  ∀ request, store.findObjects request ≠ .error .outOfFuel

/-- Nothing the application passes throws the model's own failure. -/
structure Terminating {Ctx : Type} (model : ResolvedModel Ctx) (store : RelationStore) : Prop where
  store : Terminates store
  test {name type permission rules rule test ctx} : get model.types name = some type →
    get type.permissions permission = some rules → rule ∈ rules → rule.test = some test →
    test ctx ≠ .error .outOfFuel
  lookup {name type relation field subject lookup id} : get model.types name = some type →
    get type.relations relation = some (.fromField field subject (some lookup)) →
    lookup id ≠ .error .outOfFuel

/-- The ids of the objects a request is about, each once. -/
def objectIds (tuples : List RelationTuple) (request : ObjectPageRequest) : List Str :=
  addAll [] ((tuples.filter fun t => t.object.type = request.type ∧
    t.relation = request.relation ∧ t.subject = request.subject).map (·.object.id))

theorem mem_objectIds {tuples : List RelationTuple} {request : ObjectPageRequest} {id : Str} :
    id ∈ objectIds tuples request ↔
      ⟨⟨request.type, id⟩, request.relation, request.subject⟩ ∈ tuples := by
  simp only [objectIds, mem_addAll, List.not_mem_nil, false_or, List.mem_map, List.mem_filter,
    decide_eq_true_eq]
  constructor
  · rintro ⟨⟨⟨_, _⟩, _, _⟩, ⟨ht, rfl, rfl, rfl⟩, rfl⟩
    exact ht
  · exact fun h => ⟨_, ⟨h, rfl, rfl, rfl⟩, rfl⟩

/-- A store over a list of tuples, scanned for every question. -/
def ofTuples (tuples : List RelationTuple) : RelationStore where
  has tuple := pure (tuple ∈ tuples)
  findSubjectSets object relation := pure <| tuples.filterMap fun t =>
    if t.relation = relation ∧ t.object = object then
      match t.subject with
      | .set s => some s
      | .entity _ => none
    else none
  findEntities object relation := pure <| tuples.filterMap fun t =>
    if t.relation = relation ∧ t.object = object then
      match t.subject with
      | .set _ => none
      | .entity e => some e
    else none
  findObjects request := pure (pageOf (objectIds tuples request) request.after request.limit)

theorem ofTuples_keeps (tuples : List RelationTuple) : Keeps (ofTuples tuples) tuples where
  has h := by
    obtain rfl := Except.pure_ok.mp h
    simp
  findSubjectSets {object relation _} h s := by
    obtain rfl := Except.pure_ok.mp h
    simp only [List.mem_filterMap]
    constructor
    · rintro ⟨⟨o, r, s'⟩, ht, h⟩
      split at h
      case isTrue hor =>
        obtain ⟨rfl, rfl⟩ := hor
        cases s' <;> simp_all
      case isFalse => cases h
    · exact fun h => ⟨_, h, by simp⟩
  findEntities {object relation _} h e := by
    obtain rfl := Except.pure_ok.mp h
    simp only [List.mem_filterMap]
    constructor
    · rintro ⟨⟨o, r, s'⟩, ht, h⟩
      split at h
      case isTrue hor =>
        obtain ⟨rfl, rfl⟩ := hor
        cases s' <;> simp_all
      case isFalse => cases h
    · exact fun h => ⟨_, h, by simp⟩
  findObjects {request page} hlimit h := by
    obtain rfl := Except.pure_ok.mp h
    have hids : (objectIds tuples request).Nodup := nodup_addAll List.nodup_nil
    have hpage := pageOf_isPage hids request.after hlimit
    exact ⟨hpage.ascending, fun id => (hpage.mem id).trans (and_congr_left' mem_objectIds),
      hpage.cursor_mem⟩

theorem ofTuples_terminates (tuples : List RelationTuple) : Terminates (ofTuples tuples) :=
  ⟨fun _ h => Except.pure_error.mp h, fun _ _ h => Except.pure_error.mp h,
    fun _ _ h => Except.pure_error.mp h, fun _ h => Except.pure_error.mp h⟩

end Janus.Permissions
