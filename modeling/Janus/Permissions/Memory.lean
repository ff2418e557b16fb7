import Janus.Permissions.Notation
import Janus.Permissions.Store
import Mathlib.Data.List.Infix
import Mathlib.Data.Prod.Lex
import Mathlib.Data.Set.Insert

/-!
# Permissions/Memory — the relation store in memory

Tuples under their notation, in the order they were first added; every question scans them.  What it
comes to is a set of tuples: `Represents` relates the two, each write keeps it (`Represents.write`,
`Represents.deleteEntity`), and each question is answered as the set answers it.
-/

namespace Janus.Permissions

open Js Paging Insertion

/-! ## Entities in order -/

/-- By type, then by id. -/
instance : LinearOrder Entity :=
  LinearOrder.lift' (fun e => toLex (e.type, e.id)) fun a b h => by
    cases a
    cases b
    simpa using h

theorem Entity.lt_iff {a b : Entity} : a < b ↔ a.type < b.type ∨ a.type = b.type ∧ a.id < b.id :=
  Prod.Lex.toLex_lt_toLex

/-- The sign of two holders' order. -/
def compare (a b : Entity) : ℤ :=
  if a.type ≠ b.type then if a.type < b.type then -1 else 1
  else if a.id ≠ b.id then if a.id < b.id then -1 else 1
  else 0

theorem compare_pos {a b : Entity} : 0 < compare a b ↔ b < a := by
  rw [compare, Entity.lt_iff]
  rcases lt_trichotomy a.type b.type with htype | htype | htype
  · simp [htype, htype.ne, htype.ne', htype.not_gt]
  · rcases lt_trichotomy a.id b.id with hid | hid | hid
    · simp [htype, hid, hid.ne, hid.not_gt]
    · simp [htype, hid]
    · simp [htype, hid, hid.ne', hid.not_gt]
  · simp [htype, htype.ne', htype.not_gt]

theorem compare_nonpos {a b : Entity} : compare a b ≤ 0 ↔ a ≤ b := by
  rw [← not_lt, compare_pos, not_lt]

/-! ## Pages of holders -/

/-- Which holders a page lists: the single entities holding `relation` on `object`. -/
structure HolderPageRequest where
  object : Entity
  relation : Str
  after : Option Str
  limit : ℕ
  search : Option Str

variable (lower : Str → Str)

/-- Whether `id` contains `search`, ignoring case: `lower` is what `toLowerCase` answers. -/
def idMatches (id search : Str) : Bool := decide (lower search <:+: lower id)

/-- Whether a page's filter keeps a holder. -/
def matches_ (search : Option Str) (holder : Entity) :
    Bool := search.all (idMatches lower holder.id)

/-- `holders` ordered by type then id, cut after the cursor and by the search, one page. -/
def pageOfHolders (holders : List Entity) (after : Option Str) (limit : ℕ) (search : Option Str)
    (where_ : Str) : Except Failure (CursorPage Entity Str) := do
  let from_ ← match after with
    | none => pure none
    | some cursor => some <$> readHolderCursor where_ cursor
  let rest := (holders.filter fun holder =>
    from_.all (fun f => 0 < compare holder f) && matches_ lower search holder).insertionSort
      fun a b => compare a b ≤ 0
  let items := rest.take limit
  pure ⟨items, if limit < rest.length then items.getLast?.map holderCursor else none⟩

/-! ## The store -/

/-- The tuples, each under its notation. -/
abbrev MemoryRelations := List (Str × RelationTuple)

namespace MemoryRelations

variable (memory : MemoryRelations)

/-- The tuples in order. -/
def values : List RelationTuple := memory.map Prod.snd

/-- Removals first, then additions. -/
def write (add remove : List RelationTuple) : MemoryRelations :=
  add.foldl (fun m tuple => put m (formatTuple tuple) tuple)
    (remove.foldl (fun m tuple => delete m (formatTuple tuple)) memory)

def has (tuple : RelationTuple) : Bool := (get memory (formatTuple tuple)).isSome

/-- Whether a tuple is about this relation of this object. -/
def on (tuple : RelationTuple) (object : Entity) (relation : Str) : Bool :=
  tuple.relation = relation && tuple.object = object

def findSubjectSets (object : Entity) (relation : Str) : List SubjectSet :=
  memory.values.filterMap fun tuple =>
    if on tuple object relation then
      match tuple.subject with
      | .set s => some s
      | .entity _ => none
    else none

def findEntities (object : Entity) (relation : Str) : List Entity :=
  memory.values.filterMap fun tuple =>
    if on tuple object relation then
      match tuple.subject with
      | .set _ => none
      | .entity e => some e
    else none

def findHolders (request : HolderPageRequest) : Except Failure (CursorPage Entity Str) :=
  pageOfHolders lower (memory.findEntities request.object request.relation) request.after
    request.limit request.search (js "findHolders")

/-- One page of the ids of the objects `subject` is related to, ascending. -/
def findObjects (request : ObjectPageRequest) : Page Str :=
  let ids := addAll [] ((memory.values.filter fun tuple =>
    tuple.object.type = request.type && tuple.relation = request.relation &&
      tuple.subject = request.subject && request.after.all fun c => c < tuple.object.id).map
    (·.object.id))
  cut (ids.insertionSort (· ≤ ·)) request.limit

/-- Whether a tuple names an entity: as the object, as the subject, or as the entity of a set. -/
def names (tuple : RelationTuple) (entity : Entity) : Bool :=
  tuple.object = entity ||
    match tuple.subject with
    | .entity e => e = entity
    | .set s => s.toEntity = entity

/-- Deletes every tuple naming `entity`, and answers how many. -/
def deleteEntity (entity : Entity) : ℕ × MemoryRelations :=
  (memory.countP fun e => names e.2 entity, memory.filter fun e => !names e.2 entity)

end MemoryRelations

/-! ## A set of tuples -/

/-- **A tuple mentions an entity**: it is on it, given to it, or given to a set of its. -/
inductive RelationTuple.Mentions (entity : Entity) : RelationTuple → Prop where
  | object (relation : Str) (subject : Subject) : Mentions entity ⟨entity, relation, subject⟩
  | subject (object : Entity) (relation : Str) : Mentions entity ⟨object, relation, .entity entity⟩
  | set (object : Entity) (relation members : Str) :
    Mentions entity ⟨object, relation, .set ⟨entity, members⟩⟩

/-- The store tells just that. -/
theorem names_iff {t : RelationTuple} {entity : Entity} :
    MemoryRelations.names t entity = true ↔ t.Mentions entity := by
  constructor
  · obtain ⟨object, relation, subject⟩ := t
    intro h
    rw [MemoryRelations.names, Bool.or_eq_true, decide_eq_true_eq] at h
    obtain rfl | h := h
    · exact .object relation subject
    · cases subject with
      | entity e =>
        obtain rfl : e = entity := of_decide_eq_true h
        exact .subject object relation
      | set s =>
        obtain rfl : s.toEntity = entity := of_decide_eq_true h
        exact .set object relation s.relation
  · rintro (⟨_, _⟩ | ⟨_, _⟩ | ⟨_, _, _⟩) <;> simp [MemoryRelations.names]

theorem names_eq_false {t : RelationTuple} {entity : Entity} :
    MemoryRelations.names t entity = false ↔ ¬ t.Mentions entity := by
  rw [← names_iff, Bool.not_eq_true]

/-- One change of a store. -/
inductive Change where
  | write (add remove : List RelationTuple)
  | deleteEntity (entity : Entity)

/-- What it does to the store in memory. -/
def Change.exec (memory : MemoryRelations) : Change → MemoryRelations
  | .write add remove => memory.write add remove
  | .deleteEntity entity => (memory.deleteEntity entity).2

/-- **What it does to a set of tuples**: a write removes first and adds after, and a deletion leaves
what does not mention the entity. -/
def Change.on (tuples : Set RelationTuple) : Change → Set RelationTuple
  | .write add remove => (tuples \ {t | t ∈ remove}) ∪ {t | t ∈ add}
  | .deleteEntity entity => {t ∈ tuples | ¬ t.Mentions entity}

/-- The tuples a change was given. -/
def Change.tuples : Change → List RelationTuple
  | .write add remove => add ++ remove
  | .deleteEntity _ => []

/-- **The store in memory holds these tuples**, each under its notation. -/
structure Represents (memory : MemoryRelations) (tuples : Set RelationTuple) : Prop where
  nodup : (memory.map Prod.fst).Nodup
  keyed : ∀ {key tuple}, get memory key = some tuple → key = formatTuple tuple
  mem : ∀ {tuple}, tuple ∈ tuples ↔ get memory (formatTuple tuple) = some tuple
  wellFormed : ∀ {tuple}, tuple ∈ tuples → tuple.WellFormed

variable {lower} {memory : MemoryRelations} {tuples : Set RelationTuple}

theorem Represents.nil : Represents [] ∅ := ⟨List.nodup_nil, by simp, by simp, by simp⟩

/-- What a well-formed tuple's key holds is that tuple. -/
theorem Represents.eq_of_get (h : Represents memory tuples) {tuple stored : RelationTuple}
    (htuple : tuple.WellFormed) (hget : get memory (formatTuple tuple) = some stored) :
    stored = tuple := by
  have hkey := h.keyed hget
  have hstored : stored ∈ tuples := h.mem.mpr (hkey ▸ hget)
  exact (formatTuple_inj htuple (h.wellFormed hstored) hkey).symm

theorem Represents.put (h : Represents memory tuples) {tuple : RelationTuple}
    (htuple : tuple.WellFormed) :
    Represents (put memory (formatTuple tuple) tuple) (insert tuple tuples) where
  nodup := nodup_put h.nodup _ _
  keyed {key stored} hget := by
    rw [get_put] at hget
    split at hget
    case isTrue hkey => rw [← hkey, Option.some.inj hget]
    case isFalse => exact h.keyed hget
  mem {stored} := by
    rw [Set.mem_insert_iff, get_put, h.mem]
    split
    case isTrue hkey =>
      refine ⟨?_, fun heq => Or.inl (Option.some.inj heq).symm⟩
      rintro (rfl | hget)
      · rfl
      · rw [← hkey] at hget
        rw [h.eq_of_get htuple hget]
    case isFalse hkey =>
      refine ⟨fun hm => hm.resolve_left ?_, Or.inr⟩
      rintro rfl
      exact hkey rfl
  wellFormed {stored} hm := by
    rcases Set.mem_insert_iff.mp hm with rfl | hm
    · exact htuple
    · exact h.wellFormed hm

theorem Represents.delete (h : Represents memory tuples) {tuple : RelationTuple}
    (htuple : tuple.WellFormed) :
    Represents (delete memory (formatTuple tuple)) (tuples \ {tuple}) where
  nodup := nodup_delete h.nodup _
  keyed {key stored} hget := by
    rw [get_delete] at hget
    split at hget
    · cases hget
    · exact h.keyed hget
  mem {stored} := by
    rw [Set.mem_sdiff, Set.mem_singleton_iff, get_delete, h.mem]
    split
    case isTrue hkey =>
      refine iff_of_false ?_ (by simp)
      rintro ⟨hget, hne⟩
      rw [← hkey] at hget
      exact hne (h.eq_of_get htuple hget)
    case isFalse hkey =>
      refine and_iff_left ?_
      rintro rfl
      exact hkey rfl
  wellFormed hm := h.wellFormed hm.1

/-- **A write removes first and adds after.** -/
theorem Represents.write (h : Represents memory tuples) {add remove : List RelationTuple}
    (hadd : ∀ t ∈ add, t.WellFormed) (hremove : ∀ t ∈ remove, t.WellFormed) :
    Represents (memory.write add remove) ((tuples \ {t | t ∈ remove}) ∪ {t | t ∈ add}) := by
  have hremoved : Represents (remove.foldl (fun m t => Insertion.delete m (formatTuple t)) memory)
      (tuples \ {t | t ∈ remove}) := by
    induction remove generalizing memory tuples with
    | nil => simpa using h
    | cons t remove ih =>
      obtain ⟨ht, hremove⟩ := List.forall_mem_cons.mp hremove
      have hset : tuples \ {t' | t' ∈ t :: remove} = (tuples \ {t}) \ {t' | t' ∈ remove} := by
        ext t'
        simp [and_assoc]
      rw [hset]
      exact ih (h.delete ht) hremove
  rw [MemoryRelations.write]
  generalize remove.foldl (fun m t => Insertion.delete m (formatTuple t)) memory = m at hremoved ⊢
  generalize tuples \ {t | t ∈ remove} = left at hremoved ⊢
  induction add generalizing m left with
  | nil => simpa using hremoved
  | cons t add ih =>
    obtain ⟨ht, hadd⟩ := List.forall_mem_cons.mp hadd
    have hset : left ∪ {t' | t' ∈ t :: add} = insert t left ∪ {t' | t' ∈ add} := by
      ext t'
      simp only [Set.mem_union, Set.mem_ofPred_eq, List.mem_cons, Set.mem_insert_iff]
      tauto
    rw [hset]
    exact ih hadd _ _ (hremoved.put ht)

theorem Represents.deleteEntity (h : Represents memory tuples) (entity : Entity) :
    Represents (memory.deleteEntity entity).2 {t ∈ tuples | ¬ t.Mentions entity} where
  nodup := h.nodup.sublist (List.filter_sublist.map _)
  keyed hget := by
    rw [MemoryRelations.deleteEntity, get_filter h.nodup] at hget
    exact h.keyed (Option.filter_eq_some_iff.mp hget).1
  mem {t} := by
    rw [MemoryRelations.deleteEntity, get_filter h.nodup, Option.filter_eq_some_iff,
      Set.mem_ofPred_eq, h.mem, Bool.not_eq_true', names_eq_false]
  wellFormed hm := h.wellFormed hm.1

/-- **Every change of the store is the change of the set.** -/
theorem Represents.exec (h : Represents memory tuples) {change : Change}
    (hchange : ∀ t ∈ change.tuples, t.WellFormed) : Represents (change.exec memory)
    (change.on tuples) := by
  cases change with
  | write add remove =>
    exact h.write (fun t ht => hchange t (List.mem_append_left _ ht))
      fun t ht => hchange t (List.mem_append_right _ ht)
  | deleteEntity entity => exact h.deleteEntity entity

/-- …and so is every run of them. -/
theorem Represents.run (h : Represents memory tuples) {changes : List Change}
    (hchanges : ∀ change ∈ changes, ∀ t ∈ change.tuples, t.WellFormed) :
    Represents (changes.foldl Change.exec memory) (changes.foldl Change.on tuples) := by
  induction changes generalizing memory tuples with
  | nil => exact h
  | cons change changes ih =>
    obtain ⟨hchange, hchanges⟩ := List.forall_mem_cons.mp hchanges
    exact ih (h.exec hchange) hchanges

/-! ## Questions -/

theorem Represents.mem_values (h : Represents memory tuples) {t : RelationTuple} :
    t ∈ memory.values ↔ t ∈ tuples := by
  rw [h.mem, MemoryRelations.values, List.mem_map]
  constructor
  · rintro ⟨⟨key, _⟩, hm, rfl⟩
    have hget := get_of_mem h.nodup hm
    rwa [← h.keyed hget]
  · exact fun hget => ⟨_, mem_of_get hget, rfl⟩

/-- No tuple is held twice. -/
theorem Represents.nodup_values (h : Represents memory tuples) : memory.values.Nodup := by
  have hkeys : memory.map Prod.fst = memory.values.map formatTuple := by
    rw [MemoryRelations.values, List.map_map]
    exact List.map_congr_left fun e he => h.keyed (get_of_mem h.nodup he)
  exact List.Nodup.of_map formatTuple (hkeys ▸ h.nodup)

theorem Represents.has (h : Represents memory tuples) {t : RelationTuple} (ht : t.WellFormed) :
    memory.has t = true ↔ t ∈ tuples := by
  rw [MemoryRelations.has, Option.isSome_iff_exists, h.mem]
  exact ⟨fun ⟨stored, hget⟩ => h.eq_of_get ht hget ▸ hget, fun hget => ⟨t, hget⟩⟩

theorem on_iff {t : RelationTuple} {object : Entity} {relation : Str} :
    MemoryRelations.on t object relation = true ↔ t.relation = relation ∧ t.object = object := by
  simp [MemoryRelations.on]

theorem Represents.mem_findSubjectSets (h : Represents memory tuples) {object : Entity}
    {relation : Str}
    {s : SubjectSet} :
    s ∈ memory.findSubjectSets object relation ↔ ⟨object, relation, .set s⟩ ∈ tuples := by
  rw [MemoryRelations.findSubjectSets, List.mem_filterMap, ← h.mem_values]
  constructor
  · rintro ⟨⟨o, r, who⟩, hm, hread⟩
    split at hread
    case isTrue hon =>
      obtain ⟨rfl, rfl⟩ := on_iff.mp hon
      cases who <;> simp_all
    case isFalse => cases hread
  · exact fun hm => ⟨_, hm, by simp [on_iff]⟩

theorem Represents.mem_findEntities (h : Represents memory tuples) {object : Entity}
    {relation : Str}
    {e : Entity} :
    e ∈ memory.findEntities object relation ↔ ⟨object, relation, .entity e⟩ ∈ tuples := by
  rw [MemoryRelations.findEntities, List.mem_filterMap, ← h.mem_values]
  constructor
  · rintro ⟨⟨o, r, who⟩, hm, hread⟩
    split at hread
    case isTrue hon =>
      obtain ⟨rfl, rfl⟩ := on_iff.mp hon
      cases who <;> simp_all
    case isFalse => cases hread
  · exact fun hm => ⟨_, hm, by simp [on_iff]⟩

theorem Represents.nodup_findSubjectSets (h : Represents memory tuples) (object : Entity)
    (relation : Str) :
    (memory.findSubjectSets object relation).Nodup := by
  refine h.nodup_values.filterMap ?_
  rintro ⟨o, r, who⟩ ⟨o', r', who'⟩ s hs hs'
  split at hs <;> split at hs'
  case isTrue.isTrue hon hon' =>
    obtain ⟨rfl, rfl⟩ := on_iff.mp hon
    obtain ⟨hr, ho⟩ := on_iff.mp hon'
    cases who <;> cases who' <;> simp_all
  all_goals simp_all

theorem Represents.nodup_findEntities (h : Represents memory tuples) (object : Entity)
    (relation : Str) :
    (memory.findEntities object relation).Nodup := by
  refine h.nodup_values.filterMap ?_
  rintro ⟨o, r, who⟩ ⟨o', r', who'⟩ e he he'
  split at he <;> split at he'
  case isTrue.isTrue hon hon' =>
    obtain ⟨rfl, rfl⟩ := on_iff.mp hon
    obtain ⟨hr, ho⟩ := on_iff.mp hon'
    cases who <;> cases who' <;> simp_all
  all_goals simp_all

/-- A filter leaves nothing that is not of the list it filters. -/
theorem length_findEntities_le (object : Entity) (relation : Str) :
    (memory.findEntities object relation).length ≤ memory.length :=
  (List.length_filterMap_le ..).trans (List.length_map _).le

/-! ### Pages -/

theorem Represents.findObjects_isPage (h : Represents memory tuples) (request : ObjectPageRequest)
    (hlimit : 0 < request.limit) :
    IsPage (fun id => ⟨⟨request.type, id⟩, request.relation, request.subject⟩ ∈ tuples)
      request.after (memory.findObjects request) := by
  refine cut_isPage (pairwise_insertionSort_lt (nodup_addAll List.nodup_nil)) (fun id => ?_) hlimit
  simp only [List.mem_insertionSort, mem_addAll, List.not_mem_nil, false_or, List.mem_map,
    List.mem_filter, h.mem_values, Bool.and_eq_true, decide_eq_true_eq, Option.all_eq_true]
  constructor
  · rintro ⟨⟨⟨_, _⟩, _, _⟩, ⟨hm, ⟨⟨rfl, rfl⟩, rfl⟩, hpast⟩, rfl⟩
    exact ⟨hm, hpast⟩
  · rintro ⟨hm, hpast⟩
    exact ⟨_, ⟨hm, ⟨⟨rfl, rfl⟩, rfl⟩, hpast⟩, rfl⟩

theorem insertionSort_compare (holders : List Entity) :
    (holders.insertionSort fun a b => compare a b ≤ 0) = holders.insertionSort (· ≤ ·) := by
  congr 1
  funext a b
  exact propext compare_nonpos

variable (lower) in
/-- One page of holders, by the holder it follows. -/
def holdersPast (holders : List Entity) (search : Option Str) (limit : ℕ) (after : Option Entity) :
    Page Entity :=
  cut ((holders.filter fun holder =>
    after.all (fun f => 0 < compare holder f) && matches_ lower search holder).insertionSort
      fun a b => compare a b ≤ 0) limit

/-- **A page is read by the holder its cursor follows**, where the cursor is read back. -/
theorem pageOfHolders_eq {holders : List Entity} {search : Option Str} {limit : ℕ} {where_ : Str}
    {after : Option Entity} (hafter : ∀ e ∈ after, e.type.length < 10 ^ 9) :
    pageOfHolders lower holders (after.map holderCursor) limit search where_ =
      .ok ((holdersPast lower holders search limit after).mint holderCursor) := by
  have hmint : ∀ rest : List Entity, (cut rest limit).mint holderCursor =
      ⟨rest.take limit, if limit < rest.length then (rest.take limit).getLast?.map holderCursor
        else none⟩ := fun rest => by
    simp only [cut, Page.mint, apply_ite (Option.map holderCursor), Option.map_none]
  rw [holdersPast, hmint]
  cases after with
  | none => rfl
  | some e =>
    simp only [pageOfHolders, Option.map_some, readHolderCursor_holderCursor, if_pos (hafter e rfl)]
    rfl

theorem holdersPast_isPage {holders : List Entity} (hholders : holders.Nodup) {search : Option Str}
    {limit : ℕ} (hlimit : 0 < limit) (after : Option Entity) :
    IsPage (fun e => e ∈ holders ∧ matches_ lower search e = true) after
      (holdersPast lower holders search limit after) := by
  rw [holdersPast, insertionSort_compare]
  refine cut_isPage (pairwise_insertionSort_lt (hholders.filter _)) (fun e => ?_) hlimit
  simp only [List.mem_insertionSort, List.mem_filter, Bool.and_eq_true, Option.all_eq_true,
    decide_eq_true_eq, compare_pos, Past, Option.mem_def]
  tauto

theorem Represents.holdersPast_isPage (h : Represents memory tuples) {object : Entity}
    {relation : Str}
    {search : Option Str} {limit : ℕ} (hlimit : 0 < limit) (after : Option Entity) :
    IsPage (fun e => ⟨object, relation, .entity e⟩ ∈ tuples ∧ matches_ lower search e = true) after
      (holdersPast lower (memory.findEntities object relation) search limit after) := by
  simpa only [h.mem_findEntities] using Permissions.holdersPast_isPage
    (h.nodup_findEntities ..) hlimit after

/-! ## Over every run -/

/-- A tuple the checks of some model admit. -/
def Admitted (tuple : RelationTuple) : Prop :=
  ∃ (Ctx : Type) (model : ResolvedModel Ctx) (object subject : Arg) (relation where_ : Str),
    tupleOf model object relation subject where_ = .ok tuple

theorem Admitted.wellFormed {t : RelationTuple} (h : Admitted t) : t.WellFormed :=
  let ⟨_, _, _, _, _, _, hok⟩ := h
  (tupleOf_ok hok).1

/-- The store after some changes. -/
def memoryAfter (changes : List Change) : MemoryRelations := changes.foldl Change.exec []

/-- The set of tuples after some changes. -/
def tuplesAfter (changes : List Change) : Set RelationTuple := changes.foldl Change.on ∅

theorem represents_after {changes : List Change}
    (hchanges : ∀ change ∈ changes, ∀ t ∈ change.tuples, Admitted t) :
    Represents (memoryAfter changes) (tuplesAfter changes) :=
  Represents.nil.run fun change hchange t ht => (hchanges change hchange t ht).wellFormed

theorem Represents.drain_findObjects (h : Represents memory tuples) (type relation : Str)
    (subject : Subject)
    {limit fuel : ℕ} (hlimit : 0 < limit) (hfuel : memory.length < fuel) :
    ∃ ids, drain (fun after =>
          (.ok (memory.findObjects ⟨type, relation, subject, after, limit⟩) : Except Failure _))
        .outOfFuel fuel none = .ok ids ∧
      ids.Pairwise (· < ·) ∧ ∀ id, id ∈ ids ↔ ⟨⟨type, id⟩, relation, subject⟩ ∈ tuples := by
  have hall : ∀ id, ⟨⟨type, id⟩, relation, subject⟩ ∈ tuples →
      id ∈ memory.values.map (·.object.id) := fun id hid =>
    List.mem_map.mpr ⟨_, h.mem_values.mpr hid, rfl⟩
  have hlength : (memory.values.map (·.object.id)).length < fuel := by
    simpa [MemoryRelations.values] using hfuel
  exact drain_total (fun after =>
    h.findObjects_isPage ⟨type, relation, subject, after, limit⟩ hlimit) hall hlength
    Failure.outOfFuel

variable (lower) in
theorem Represents.drain_findHolders (h : Represents memory tuples) (object : Entity)
    (relation : Str)
    (search : Option Str) (hshort : ∀ e, ⟨object, relation, .entity e⟩ ∈ tuples →
      e.type.length < 10 ^ 9) {limit fuel : ℕ} (hlimit : 0 < limit) (hfuel : memory.length < fuel) :
    ∃ holders, drainCursor (fun after =>
          memory.findHolders lower ⟨object, relation, after, limit, search⟩) .outOfFuel fuel none =
        .ok holders ∧ holders.Pairwise (· < ·) ∧
      ∀ e, e ∈ holders ↔ ⟨object, relation, .entity e⟩ ∈ tuples ∧
        matches_ lower search e = true := by
  have hpage : ∀ after, IsPage
      (fun e => ⟨object, relation, .entity e⟩ ∈ tuples ∧ matches_ lower search e = true) after
      (holdersPast lower (memory.findEntities object relation) search limit after) :=
    h.holdersPast_isPage hlimit
  have hread : ∀ after : Option Entity, (∀ c ∈ after, c.type.length < 10 ^ 9) →
      memory.findHolders lower ⟨object, relation, after.map holderCursor, limit, search⟩ =
        (Except.ok (holdersPast lower (memory.findEntities object relation) search limit after) :
          Except Failure _).map (·.mint holderCursor) := fun after hafter => pageOfHolders_eq hafter
  have hnext : ∀ after p, (Except.ok (holdersPast lower (memory.findEntities object relation) search
      limit after) : Except Failure (Page Entity)) = .ok p →
      ∀ c ∈ p.nextCursor, c.type.length < 10 ^ 9 := by
    rintro after _ ⟨⟩ c hc
    exact hshort c (((hpage after).mem c).mp ((hpage after).cursor_mem c hc)).1.1
  obtain ⟨all, hdrain, hasc, hmem⟩ := drain_total hpage (fun e he => h.mem_findEntities.mpr he.1)
    (lt_of_le_of_lt (length_findEntities_le object relation) hfuel) Failure.outOfFuel
  exact ⟨all, (drainCursor_eq hread hnext fuel (by simp)).trans hdrain, hasc, hmem⟩

variable (lower) in
/-- **The store in memory is a set of tuples**: after any changes, each question is answered as the
set answers it, and the pages of a question put together are the whole answer, in order. -/
theorem memory_is_set {changes : List Change}
    (hchanges : ∀ change ∈ changes, ∀ t ∈ change.tuples, Admitted t) :
    (∀ t, Admitted t → ((memoryAfter changes).has t = true ↔ t ∈ tuplesAfter changes)) ∧
    (∀ object relation, ((memoryAfter changes).findSubjectSets object relation).Nodup ∧
      ∀ s, s ∈ (memoryAfter changes).findSubjectSets object relation ↔
        ⟨object, relation, .set s⟩ ∈ tuplesAfter changes) ∧
    (∀ object relation, ((memoryAfter changes).findEntities object relation).Nodup ∧
      ∀ e, e ∈ (memoryAfter changes).findEntities object relation ↔
        ⟨object, relation, .entity e⟩ ∈ tuplesAfter changes) ∧
    (∀ type relation subject limit fuel, 0 < limit → (memoryAfter changes).length < fuel →
      ∃ ids, drain (fun after => (.ok ((memoryAfter changes).findObjects
            ⟨type, relation, subject, after, limit⟩) : Except Failure _)) .outOfFuel fuel none =
          .ok ids ∧ ids.Pairwise (· < ·) ∧
        ∀ id, id ∈ ids ↔ ⟨⟨type, id⟩, relation, subject⟩ ∈ tuplesAfter changes) ∧
    (∀ object relation search limit fuel,
      (∀ e, ⟨object, relation, .entity e⟩ ∈ tuplesAfter changes → e.type.length < 10 ^ 9) →
      0 < limit → (memoryAfter changes).length < fuel →
      ∃ holders, drainCursor (fun after => (memoryAfter changes).findHolders lower
            ⟨object, relation, after, limit, search⟩) .outOfFuel fuel none = .ok holders ∧
        holders.Pairwise (· < ·) ∧
        ∀ e, e ∈ holders ↔
          ⟨object, relation, .entity e⟩ ∈ tuplesAfter changes ∧ matches_ lower search e = true) ∧
    ∀ t t', Admitted t → Admitted t' → formatTuple t = formatTuple t' → t = t' := by
  have h := represents_after hchanges
  exact ⟨fun t ht => h.has ht.wellFormed,
    fun object relation => ⟨h.nodup_findSubjectSets .., fun s => h.mem_findSubjectSets⟩,
    fun object relation => ⟨h.nodup_findEntities .., fun e => h.mem_findEntities⟩,
    fun type relation subject limit fuel hlimit => h.drain_findObjects type relation subject hlimit,
    fun object relation search limit fuel hshort hlimit =>
      h.drain_findHolders lower object relation search hshort hlimit,
    fun t t' ht ht' => formatTuple_inj ht.wellFormed ht'.wellFormed⟩

/-! ### A holder type too long for its cursor -/

section Long

variable (type : Str)

/-- `viewer` of a `doc`, held by users of one type. -/
def viewers (h : isName type = true) : ResolvedModel Unit where
  subjects := [type]
  types := [(js "doc", ⟨js "doc", [(js "viewer", .stored [.type type])], []⟩)]
  subject_isName s hs := by rwa [List.mem_singleton.mp hs]
  checked := by
    constructor <;> simp [ResolvedRelation.sets] <;> decide

/-- A user of this type views a `doc`. -/
def view (id : Str) : RelationTuple := ⟨⟨js "doc", js "d1"⟩, js "viewer", .entity ⟨type, id⟩⟩

variable {type}

/-- The `doc`, as a caller passes it. -/
def doc : Arg := .record (.of [(js "type", .str (js "doc")), (js "id", .str (js "d1"))] false)

theorem targetOf_viewers (h : isName type = true) (where_ : Str) :
    targetOf (viewers type h) doc (js "viewer") where_ =
      .ok ⟨⟨js "doc", js "d1"⟩, ⟨js "doc", [(js "viewer", .stored [.type type])], []⟩,
      [.type type]⟩ := by
  rw [targetOf, doc, objectOf_of rfl rfl (by decide) rfl]
  rfl

theorem admitted_view (h : isName type = true) {id : Str} (hid : isId id = true)
    (hstorable : isStorable id = true) : Admitted (view type id) := by
  let user : Record := .of [(js "type", .str type), (js "id", .str id)] false
  have hwho : subjectOf (viewers type h) (.record user) (js "grant") = .ok (.entity ⟨type, id⟩) :=
    subjectOf_of rfl rfl hid (by simp [viewers]) rfl
  refine ⟨Unit, viewers type h, doc, .record user, js "viewer", js "grant", ?_⟩
  rw [tupleOf, targetOf_viewers h, Except.ok_bind, hwho, Except.ok_bind]
  simp [Subject.id, hstorable, admits]
  rfl

/-- Two users given the `doc`. -/
def twoViews (type : Str) : List Change := [.write [view type (js "u1"), view type (js "u2")] []]

/-- The users viewing a `doc`, one a page. -/
def viewersOf (memory : MemoryRelations) (after : Option Str) :
    Except Failure (CursorPage Entity Str) :=
  memory.findHolders id ⟨⟨js "doc", js "d1"⟩, js "viewer", after, 1, none⟩

theorem admitted_twoViews (h : isName type = true) :
    ∀ change ∈ twoViews type, ∀ t ∈ change.tuples, Admitted t := by
  have hview : ∀ id ∈ [js "u1", js "u2"], Admitted (view type id) := fun id hid => by
    have : isId id = true ∧ isStorable id = true := by
      revert id
      decide
    exact admitted_view h this.1 this.2
  simpa [twoViews, Change.tuples] using hview

theorem findEntities_twoViews (h : isName type = true) :
    (memoryAfter (twoViews type)).findEntities ⟨js "doc", js "d1"⟩ (js "viewer") =
      [⟨type, js "u1"⟩, ⟨type, js "u2"⟩] := by
  have hkey : formatTuple (view type (js "u1")) ≠ formatTuple (view type (js "u2")) := fun heq => by
    have := formatTuple_inj (admitted_view h (by decide) (by decide)).wellFormed
      (admitted_view h (by decide) (by decide)).wellFormed heq
    simp only [view, RelationTuple.mk.injEq, Subject.entity.injEq, Entity.mk.injEq,
      true_and] at this
    exact absurd this (by decide)
  have hmemory : memoryAfter (twoViews type) =
      [(formatTuple (view type (js "u1")), view type (js "u1")),
        (formatTuple (view type (js "u2")), view type (js "u2"))] := by
    simp [memoryAfter, twoViews, Change.exec, MemoryRelations.write, Insertion.put, hkey]
  rw [hmemory]
  rfl

theorem viewersOf_first (h : isName type = true) :
    viewersOf (memoryAfter (twoViews type)) none =
      .ok ⟨[⟨type, js "u1"⟩], some (holderCursor ⟨type, js "u1"⟩)⟩ := by
  have hsorted : compare ⟨type, js "u1"⟩ ⟨type, js "u2"⟩ ≤ 0 := by
    rw [compare_nonpos, le_iff_lt_or_eq, Entity.lt_iff]
    exact Or.inl (Or.inr ⟨rfl, (by decide : js "u1" < js "u2")⟩)
  rw [viewersOf, MemoryRelations.findHolders, findEntities_twoViews h]
  simp [pageOfHolders, matches_, List.insertionSort, hsorted]

/-- A cursor that begins with ten digits is read by no page. -/
theorem viewersOf_past (hlong : 10 ^ 9 ≤ type.length) :
    viewersOf (memoryAfter (twoViews type)) (some (holderCursor ⟨type, js "u1"⟩)) =
      .error (invalidCursor (js "findHolders") (holderCursor ⟨type, js "u1"⟩)) := by
  rw [viewersOf, MemoryRelations.findHolders]
  simp only [pageOfHolders, readHolderCursor_holderCursor, if_neg (Nat.not_lt.mpr hlong)]
  rfl

/-- **Past the first of two holders of too long a type, no page is answered.** -/
theorem drain_twoViews (h : isName type = true) (hlong : 10 ^ 9 ≤ type.length) (fuel : ℕ)
    (holders : List Entity) :
    drainCursor (viewersOf (memoryAfter (twoViews type))) .outOfFuel fuel none ≠ .ok holders := by
  cases fuel with
  | zero => rintro ⟨⟩
  | succ fuel =>
    rw [drainCursor, viewersOf_first h]
    cases fuel with
    | zero => rintro ⟨⟩
    | succ fuel =>
      simp only [Except.ok_bind]
      rw [drainCursor, viewersOf_past hlong]
      rintro ⟨⟩

end Long

theorem memory_is_set_twoViews :
    ∃ holders, drainCursor (viewersOf (memoryAfter (twoViews (js "staff")))) .outOfFuel 3 none =
        .ok holders ∧ holders.Pairwise (· < ·) ∧
      ∀ e, e ∈ holders ↔ ⟨⟨js "doc", js "d1"⟩, js "viewer", .entity e⟩ ∈
        tuplesAfter (twoViews (js "staff")) ∧ matches_ id none e = true := by
  refine (memory_is_set id (admitted_twoViews (by decide))).2.2.2.2.1 ⟨js "doc", js "d1"⟩
    (js "viewer") none 1 3 (fun e he => ?_) (by decide) (by decide)
  obtain rfl | rfl : e = ⟨js "staff", js "u1"⟩ ∨ e = ⟨js "staff", js "u2"⟩ := by
    simpa [tuplesAfter, twoViews, Change.on, view] using he
  all_goals decide

theorem isName_replicate {n : ℕ} (hn : 0 < n) : isName (List.replicate n 97) = true := by
  obtain ⟨n, rfl⟩ := Nat.exists_eq_succ_of_ne_zero hn.ne'
  simp [List.replicate_succ, isName]

/-- A type of a thousand million letters: its holders are never all listed. -/
theorem holders_past_cursor :
    (∀ change ∈ twoViews (List.replicate (10 ^ 9) 97), ∀ t ∈ change.tuples, Admitted t) ∧
    ∀ fuel holders, drainCursor (viewersOf (memoryAfter (twoViews (List.replicate (10 ^ 9) 97))))
      .outOfFuel fuel none ≠ .ok holders := by
  have hname := isName_replicate (Nat.pow_pos (Nat.succ_pos 9) : 0 < 10 ^ 9)
  exact ⟨admitted_twoViews hname, drain_twoViews hname (List.length_replicate ..).ge⟩

end Janus.Permissions
