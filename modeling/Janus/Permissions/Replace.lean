import Janus.Permissions.Memory
import Janus.Machinery.Calls

/-!
# Permissions/Replace — making the holders of a relation exactly a wanted list

Each call reads the holders of one kind, then those of the other, and makes at most one write: the
difference to what it wants.  Other calls fall in between.  Tuple by tuple, a call that saw what it
wants leaves it, and one that did not sets it (`Settled`): so what every call wants is there once
all ended, what none wants is gone, and what is not theirs was never touched.
-/

namespace Janus.Permissions

open Js Insertion Calls

/-! ## Calls of the store -/

/-- One call of a relation store, and which of two issued together it takes first. -/
inductive RelationCall where
  | coin
  | findEntities (object : Entity) (relation : Str)
  | findSubjectSets (object : Entity) (relation : Str)
  | write (add remove : List RelationTuple)

@[reducible] def RelationCall.Answer : RelationCall → Type
  | .coin => Bool
  | .findEntities .. => List Entity
  | .findSubjectSets .. => List SubjectSet
  | .write .. => Unit

/-- The store, and the order it takes calls in. -/
structure Shared where
  memory : MemoryRelations
  coin : Bool

/-- One call answered. -/
def RelationCall.exec : (c : RelationCall) → Shared → c.Answer × Shared
  | .coin, w => (w.coin, w)
  | .findEntities object relation, w => (w.memory.findEntities object relation, w)
  | .findSubjectSets object relation, w => (w.memory.findSubjectSets object relation, w)
  | .write add remove, w => ((), { w with memory := w.memory.write add remove })

/-- One call of a `replace()`. -/
def call (c : RelationCall) : Prog RelationCall RelationCall.Answer Failure c.Answer :=
  Prog.perform c

/-! ## `replace()` -/

/-- A subject as an identity: an entity is not the set `type:id#relation`. -/
def keyOf : Subject → Str
  | .set s => js "set" ++ 0 :: (s.type ++ 0 :: (s.id ++ 0 :: s.relation))
  | .entity e => js "entity" ++ 0 :: (e.type ++ 0 :: e.id)

/-- What a caller passes; `subjects` is `none` for what is no array. -/
structure Replacing where
  object : Arg
  relation : Str
  subjects : Option (List Arg)

/-- The tuples added and the tuples removed. -/
structure Diff where
  add : List RelationTuple
  remove : List RelationTuple

/-- What is wanted and not held, and what is held and not wanted. -/
def diff (entity : Entity) (relation : Str) (tuples : List RelationTuple) (current : List Subject) :
    Diff :=
  let wanted := indexBy (fun tuple : RelationTuple => keyOf tuple.subject) tuples
  let held := indexBy keyOf current
  { add := (wanted.filter fun e => (get held e.1).isNone).map Prod.snd
    remove := (held.filter fun e => (get wanted e.1).isNone).map fun e => ⟨entity, relation, e.2⟩ }

section Replace

variable {Ctx : Type} (model : ResolvedModel Ctx) (f : Replacing)

/-- The target, and every tuple wanted: read first, so that a refusal writes nothing. -/
def Replacing.wanted : Except Failure (Entity × List RelationTuple) :=
  let where_ := js "replace"
  match f.subjects with
  | none => throw (.typeError (where_ ++ js ": the subjects must be an array"))
  | some subjects => do
    -- An empty list still names an object and a relation: refuse a wrong one.
    let target ← targetOf model f.object f.relation where_
    let tuples ← subjects.mapM fun subject => tupleOf model f.object f.relation subject where_
    pure (target.entity, tuples)

/-- The current holders, by the two calls issued together. -/
def current (entity : Entity) (relation : Str) :
    Prog RelationCall RelationCall.Answer Failure (List Subject) := do
  if ← call .coin then
    let entities : List Entity ← call (.findEntities entity relation)
    let sets : List SubjectSet ← call (.findSubjectSets entity relation)
    pure (entities.map .entity ++ sets.map .set)
  else
    let sets : List SubjectSet ← call (.findSubjectSets entity relation)
    let entities : List Entity ← call (.findEntities entity relation)
    pure (entities.map .entity ++ sets.map .set)

/-- Makes `subjects` the only holders of `relation` on `object`, by one write, and none when there
is nothing to change. -/
def replace : Prog RelationCall RelationCall.Answer Failure Diff := do
  let (entity, tuples) ← .done (f.wanted model)
  let d := diff entity f.relation tuples (← current entity f.relation)
  if !d.add.isEmpty || !d.remove.isEmpty then
    call (.write d.add d.remove)
  pure d

/-- Any number of `replace()` calls over one store. -/
def replacing : Service RelationCall RelationCall.Answer Shared Bool Replacing Failure Diff where
  exec := RelationCall.exec
  drift first w := { w with coin := first }
  code := replace model

end Replace

/-! ## What a difference holds -/

theorem keyOf_inj {a b : Subject} (ha : a.WellFormed) (hb : b.WellFormed)
    (h : keyOf a = keyOf b) : a = b := by
  cases a with
  | entity e =>
    cases b with
    | entity f =>
      obtain ⟨htype, hid⟩ := append_cons_inj (isName_nul ha.type) (isName_nul hb.type)
        (List.cons.inj (List.append_cancel_left h)).2
      cases e
      cases f
      simp_all [Subject.type]
    | set t => exact absurd (List.head_eq_of_cons_eq h) (by decide)
  | set s =>
    cases b with
    | entity f => exact absurd (List.head_eq_of_cons_eq h) (by decide)
    | set t =>
      obtain ⟨htype, hrest⟩ := append_cons_inj (isName_nul ha.type) (isName_nul hb.type)
        (List.cons.inj (List.append_cancel_left h)).2
      -- an id may hold a NUL, a relation not: the two are told apart at the last
      obtain ⟨hid, hrelation⟩ := append_cons_inj' (isName_nul (ha.relation s rfl))
        (isName_nul (hb.relation t rfl)) hrest
      obtain ⟨⟨_, _⟩, _⟩ := s
      obtain ⟨⟨_, _⟩, _⟩ := t
      simp_all [Subject.type]

section Diff

variable {entity : Entity} {relation : Str} {tuples : List RelationTuple} {held : List Subject}

theorem isNone_get_indexBy {α : Type*} {key : α → Str} {as : List α} {k : Str} :
    (get (indexBy key as) k).isNone = true ↔ ∀ a ∈ as, key a ≠ k := by
  rw [Option.isNone_iff_eq_none, ← Option.not_isSome_iff_eq_none, isSome_get_indexBy]
  simp

/-- **What is added is wanted and not held.** -/
theorem mem_diff_add (htuples : ∀ t ∈ tuples, t.subject.WellFormed)
    (hone : ∀ t ∈ tuples, t.object = entity ∧ t.relation = relation)
    (hheld : ∀ s ∈ held, s.WellFormed) {t : RelationTuple} :
    t ∈ (diff entity relation tuples held).add ↔ t ∈ tuples ∧ t.subject ∉ held := by
  have hkey : ∀ a ∈ tuples, ∀ b ∈ tuples, keyOf a.subject = keyOf b.subject → a = b := by
    intro a ha b hb heq
    have hsubject := keyOf_inj (htuples a ha) (htuples b hb) heq
    obtain ⟨hobject, hrelation⟩ := hone a ha
    obtain ⟨hobject', hrelation'⟩ := hone b hb
    cases a
    cases b
    simp_all
  rw [← mem_values_indexBy hkey]
  simp only [diff, List.mem_map, List.mem_filter, isNone_get_indexBy]
  constructor
  · rintro ⟨e, ⟨he, hnone⟩, rfl⟩
    refine ⟨⟨e, he, rfl⟩, fun hm => hnone _ hm (mem_indexBy he).1.symm⟩
  · rintro ⟨⟨e, he, rfl⟩, hnot⟩
    obtain ⟨hek, hmem⟩ := mem_indexBy he
    refine ⟨e, ⟨he, fun s hs heq => hnot ?_⟩, rfl⟩
    rwa [← keyOf_inj (hheld s hs) (htuples _ hmem) (heq.trans hek)]

/-- **What is removed is held and not wanted.** -/
theorem mem_diff_remove (htuples : ∀ t ∈ tuples, t.subject.WellFormed)
    (hone : ∀ t ∈ tuples, t.object = entity ∧ t.relation = relation)
    (hheld : ∀ s ∈ held, s.WellFormed) {t : RelationTuple} :
    t ∈ (diff entity relation tuples held).remove ↔
      (t.object = entity ∧ t.relation = relation) ∧ t.subject ∈ held ∧ t ∉ tuples := by
  have hvalues : ∀ {s : Subject}, s ∈ (indexBy keyOf held).map Prod.snd ↔ s ∈ held :=
    mem_values_indexBy fun a ha b hb => keyOf_inj (hheld a ha) (hheld b hb)
  simp only [diff, List.mem_map, List.mem_filter, isNone_get_indexBy]
  constructor
  · rintro ⟨e, ⟨he, hnone⟩, rfl⟩
    obtain ⟨hek, hmem⟩ := mem_indexBy he
    exact ⟨⟨rfl, rfl⟩, hmem, fun hm => hnone _ hm hek.symm⟩
  · rintro ⟨⟨rfl, rfl⟩, hm, hnot⟩
    obtain ⟨e, he, hes⟩ := List.mem_map.mp (hvalues.mpr hm)
    obtain ⟨hek, hmem⟩ := mem_indexBy he
    refine ⟨e, ⟨he, fun t' ht' heq => hnot ?_⟩, by rw [hes]⟩
    have hsubject := keyOf_inj (htuples t' ht') (hheld _ hmem) (heq.trans hek)
    obtain ⟨hobject, hrelation⟩ := hone t' ht'
    cases t
    cases t'
    simp_all

end Diff

/-! ## Phases -/

/-- Where a call stands: what it read so far, or that it wrote. -/
inductive ReplacePhase where
  | reading (entities : Option (List Entity)) (sets : Option (List SubjectSet))
  | wrote

section Protocol

variable {Ctx : Type} (model : ResolvedModel Ctx) (f : Replacing)

/-- What one answered call does: each kind of holder is read once, and the one write is the
difference to what was read. -/
inductive ReplaceStep : ReplacePhase → (c : RelationCall) → c.Answer → ReplacePhase → Prop
  | coin (p : ReplacePhase) (b : Bool) : ReplaceStep p .coin b p
  | findEntities {entity : Entity} {tuples : List RelationTuple} (es : List Entity)
      (ss : Option (List SubjectSet)) (h : f.wanted model = .ok (entity, tuples)) :
    ReplaceStep (.reading none ss) (.findEntities entity f.relation) es (.reading (some es) ss)
  | findSubjectSets {entity : Entity} {tuples : List RelationTuple} (es : Option (List Entity))
      (ss : List SubjectSet) (h : f.wanted model = .ok (entity, tuples)) :
    ReplaceStep (.reading es none) (.findSubjectSets entity f.relation) ss (.reading es (some ss))
  | write {entity : Entity} {tuples : List RelationTuple} {d : Diff} (es : List Entity)
      (ss : List SubjectSet) (h : f.wanted model = .ok (entity, tuples))
      (hd : diff entity f.relation tuples (es.map .entity ++ ss.map .set) = d) :
    ReplaceStep (.reading (some es) (some ss)) (.write d.add d.remove) () .wrote

/-- An answer: the write was made, or there was nothing to change. -/
def ReplaceEnd (p : ReplacePhase) : Prop :=
  p = .wrote ∨ ∃ entity tuples es ss, f.wanted model = .ok (entity, tuples) ∧
    p = .reading (some es) (some ss) ∧
    (diff entity f.relation tuples (es.map .entity ++ ss.map .set)).add = [] ∧
    (diff entity f.relation tuples (es.map .entity ++ ss.map .set)).remove = []

/-- The two reads, in either order. -/
theorem current_leads {entity : Entity} {tuples : List RelationTuple}
    (h : f.wanted model = .ok (entity, tuples)) (Z : Failure → ReplacePhase → Prop) :
    Leads RelationCall.exec (ReplaceStep model f) (.reading none none) (current entity f.relation)
      (fun held p => ∃ es ss, p = .reading (some es) (some ss) ∧
        held = es.map .entity ++ ss.map .set) Z := by
  refine Leads.bind (Leads.perform fun w first _ => ⟨_, .coin _ _, ?_⟩)
  have hentities := fun (ss : Option (List SubjectSet)) (es : List Entity) =>
    ReplaceStep.findEntities es ss h
  have hsets := fun (es : Option (List Entity)) (ss : List SubjectSet) =>
    ReplaceStep.findSubjectSets es ss h
  cases first
  · exact Leads.bind (Leads.perform fun _ ss _ => ⟨_, hsets none ss, Leads.bind
      (Leads.perform fun _ es _ => ⟨_, hentities (some ss) es, es, ss, rfl, rfl⟩)⟩)
  · exact Leads.bind (Leads.perform fun _ es _ => ⟨_, hentities none es, Leads.bind
      (Leads.perform fun _ ss _ => ⟨_, hsets (some es) ss, es, ss, rfl, rfl⟩)⟩)

/-- `replace()` steps through these phases. -/
theorem replace_leads :
    Leads RelationCall.exec (ReplaceStep model f) (.reading none none) (replace model f)
      (fun _ p => ReplaceEnd model f p) (fun _ _ => True) := by
  refine Leads.bind (Leads.done (fun ⟨entity, tuples⟩ h => ?_) fun _ _ => trivial)
  refine Leads.bind ((current_leads model f h _).mono ?_ fun _ _ => id)
  rintro held p ⟨es, ss, rfl, rfl⟩
  dsimp only
  split
  case isTrue =>
    exact Leads.bind (Leads.perform fun _ _ _ => ⟨_, .write es ss h rfl, Or.inl rfl⟩)
  case isFalse hnone =>
    simp only [Bool.or_eq_true, Bool.not_eq_true', List.isEmpty_eq_false_iff, not_or, not_not]
      at hnone
    exact Or.inr ⟨entity, tuples, es, ss, h, rfl, hnone⟩

/-- The protocol of `replace()` calls. -/
def replaceProtocol : Protocol (replacing model) where
  Phase := ReplacePhase
  start _ := .reading none none
  Step := ReplaceStep model
  Final f r p := ∀ d, r = .ok d → ReplaceEnd model f p
  follows f := (replace_leads model f).mono (fun _ _ h _ _ => h) (by nofun)

end Protocol

/-! ## What every run keeps -/

/-- The tuples a store holds. -/
def stored (memory : MemoryRelations) : Set RelationTuple := {t | t ∈ memory.values}

theorem Represents.eq_stored {memory : MemoryRelations} {tuples : Set RelationTuple}
    (h : Represents memory tuples) : tuples = stored memory :=
  Set.ext fun _ => h.mem_values.symm

/-- Whether a call saw a subject hold the relation, once it read who does. -/
def ReplacePhase.saw (who : Subject) : ReplacePhase → Option Bool
  | .reading es ss =>
    match who with
    | .entity e => es.map fun es => decide (e ∈ es)
    | .set s => ss.map fun ss => decide (s ∈ ss)
  | .wrote => none

/-- **Where a tuple stands for a call that wants it, or does not**: a call that saw it as it wants
it found it so, and one that wrote left it so. -/
def Settled (memory : MemoryRelations) (tuple : RelationTuple) (wants : Prop) :
    ReplacePhase → Prop
  | .wrote => tuple ∈ stored memory ↔ wants
  | p => ∀ b, p.saw tuple.subject = some b → (b = true ↔ wants) → (tuple ∈ stored memory ↔ wants)

section Run

variable {Ctx : Type} (model : ResolvedModel Ctx) (entity : Entity) (relation : Str)

/-- A call on this relation of this object. -/
def Replacing.On (f : Replacing) : Prop :=
  f.relation = relation ∧ ∀ target, targetOf model f.object f.relation (js "replace") = .ok target →
    target.entity = entity

/-- A tuple of this relation of this object. -/
def RelationTuple.On (t : RelationTuple) : Prop := t.object = entity ∧ t.relation = relation

variable {model entity relation}

/-- **What is wanted is about the target**, and well formed. -/
theorem wanted_ok {f : Replacing} (hf : f.On model entity relation) {e : Entity}
    {tuples : List RelationTuple} (h : f.wanted model = .ok (e, tuples)) :
    e = entity ∧ isName e.type = true ∧ isId e.id = true ∧ isName relation = true ∧
      ∀ t ∈ tuples, t.WellFormed ∧ t.On entity relation := by
  unfold Replacing.wanted at h
  dsimp only at h
  split at h
  case h_1 => cases h
  case h_2 subjects _ =>
    obtain ⟨target, htarget, h⟩ := Except.bind_ok.mp h
    obtain ⟨_, htuples, h⟩ := Except.bind_ok.mp h
    cases h
    have hentity := hf.2 target htarget
    obtain ⟨htype, hid, hrelation⟩ := targetOf_ok htarget
    refine ⟨hentity, htype, hid, hf.1 ▸ hrelation, fun t ht => ?_⟩
    obtain ⟨k, hk⟩ := List.getElem?_of_mem ht
    obtain ⟨subject, -, hok⟩ := List.mapM_ok htuples hk
    obtain ⟨hwellFormed, htrelation, target', htarget', htobject⟩ := tupleOf_ok hok
    rw [htarget] at htarget'
    cases htarget'
    exact ⟨hwellFormed, htobject.trans hentity, htrelation.trans hf.1⟩

/-- A write of well-formed tuples removes first and adds after. -/
theorem stored_write {memory : MemoryRelations} (h : Represents memory (stored memory))
    {add remove : List RelationTuple} (hadd : ∀ t ∈ add, t.WellFormed)
    (hremove : ∀ t ∈ remove, t.WellFormed) :
    Represents (memory.write add remove) (stored (memory.write add remove)) ∧
      ∀ t, t ∈ stored (memory.write add remove) ↔ t ∈ add ∨ t ∈ stored memory ∧ t ∉ remove := by
  have hwrite := h.write hadd hremove
  have hstored := hwrite.eq_stored
  refine ⟨hstored ▸ hwrite, fun t => ?_⟩
  rw [← hstored]
  simp [or_comm]

/-- **What every run of `replace()` keeps**, of one tuple that every call wants, or that none
does. -/
structure Replaces (model : ResolvedModel Ctx) (entity : Entity) (relation : Str)
    (start : MemoryRelations) (tuple : RelationTuple) (wants : Prop) (w : Shared)
    (m : (replaceProtocol model).Locals) : Prop where
  represents : Represents w.memory (stored w.memory)
  began : ∀ {i f p}, m i = some (f, p) → f.On model entity relation ∧
    ∀ e tuples, f.wanted model = .ok (e, tuples) → (tuple ∈ tuples ↔ wants)
  read : ∀ {i f es ss}, m i = some (f, .reading es ss) →
    (∀ l ∈ es, ∀ e ∈ l, (Subject.entity e).WellFormed) ∧
    ∀ l ∈ ss, ∀ s ∈ l, (Subject.set s).WellFormed
  settled : tuple.On entity relation → ∀ {i f p}, m i = some (f, p) → Settled w.memory tuple wants p
  others : ¬ tuple.On entity relation → (tuple ∈ stored w.memory ↔ tuple ∈ stored start)

variable {start : MemoryRelations} {tuple : RelationTuple} {wants : Prop} {w w' : Shared}
  {m : (replaceProtocol model).Locals} {i : ℕ} {f : Replacing} {p p' : ReplacePhase}

/-- One call more: what it leaves others at, and where it stands itself. -/
theorem Replaces.step (h : Replaces model entity relation start tuple wants w m)
    (hi : m i = some (f, p)) (hrepresents : Represents w'.memory (stored w'.memory))
    (hread : ∀ es ss, p' = .reading es ss → (∀ l ∈ es, ∀ e ∈ l, (Subject.entity e).WellFormed) ∧
      ∀ l ∈ ss, ∀ s ∈ l, (Subject.set s).WellFormed)
    (hkept : tuple.On entity relation → ∀ q, Settled w.memory tuple wants q →
      Settled w'.memory tuple wants q)
    (hsettled : tuple.On entity relation → Settled w'.memory tuple wants p')
    (hothers : ¬ tuple.On entity relation →
      (tuple ∈ stored w'.memory ↔ tuple ∈ stored w.memory)) :
    Replaces model entity relation start tuple wants w' (Function.update m i (some (f, p'))) where
  represents := hrepresents
  began {j g q} hj := by
    obtain ⟨-, heq⟩ | ⟨-, hj⟩ := update_eq_some.mp hj
    · obtain ⟨rfl, -⟩ := Prod.mk.inj heq
      exact h.began hi
    · exact h.began hj
  read {j g es ss} hj := by
    obtain ⟨-, heq⟩ | ⟨-, hj⟩ := update_eq_some.mp hj
    · exact hread es ss (Prod.mk.inj heq).2
    · exact h.read hj
  settled hon {j g q} hj := by
    obtain ⟨-, heq⟩ | ⟨-, hj⟩ := update_eq_some.mp hj
    · obtain ⟨rfl, rfl⟩ := Prod.mk.inj heq
      exact hsettled hon
    · exact hkept hon _ (h.settled hon hj)
  others hoff := (hothers hoff).trans (h.others hoff)

/-- A read more: it saw a tuple as it is, or as it was seen before. -/
theorem Settled.reading {memory : MemoryRelations} {es es' : Option (List Entity)}
    {ss ss' : Option (List SubjectSet)} (h : Settled memory tuple wants (.reading es ss))
    (hsaw : ∀ b, ReplacePhase.saw tuple.subject (.reading es' ss') = some b →
      (b = true ↔ tuple ∈ stored memory) ∨ ReplacePhase.saw tuple.subject (.reading es ss) =
      some b) :
    Settled memory tuple wants (.reading es' ss') := by
  intro b hb hwants
  obtain hsaw | hold := hsaw b hb
  · rw [← hsaw, hwants]
  · exact h b hold hwants

/-- A tuple of a relation of an object is told by its subject. -/
theorem RelationTuple.On.eq (h : tuple.On entity relation) :
    tuple = ⟨entity, relation, tuple.subject⟩ := by
  obtain ⟨rfl, rfl⟩ := h
  rfl

theorem Replaces.findEntities (h : Replaces model entity relation start tuple wants w m)
    {ss : Option (List SubjectSet)} (hi : m i = some (f, .reading none ss))
    (hrelation : f.relation = relation) :
    Replaces model entity relation start tuple wants w (Function.update m i
      (some (f, .reading (some (w.memory.findEntities entity f.relation)) ss))) := by
  subst hrelation
  have hmem : ∀ {e}, e ∈ w.memory.findEntities entity f.relation ↔
      ⟨entity, f.relation, .entity e⟩ ∈ stored w.memory := h.represents.mem_findEntities
  refine h.step hi h.represents ?_ (fun _ _ hq => hq)
    (fun hon => (h.settled hon hi).reading fun b hb => ?_) fun _ => Iff.rfl
  · rintro _ _ ⟨⟩
    refine ⟨fun l hl e he => ?_, (h.read hi).2⟩
    cases hl
    exact (h.represents.wellFormed (hmem.mp he)).subject
  · rw [hon.eq]
    cases hsubject : tuple.subject with
    | entity e =>
      rw [hsubject] at hb
      obtain rfl := Option.some.inj hb
      exact Or.inl (decide_eq_true_iff.trans hmem)
    | set s =>
      rw [hsubject] at hb
      exact Or.inr hb

theorem Replaces.findSubjectSets (h : Replaces model entity relation start tuple wants w m)
    {es : Option (List Entity)} (hi : m i = some (f, .reading es none))
    (hrelation : f.relation = relation) :
    Replaces model entity relation start tuple wants w (Function.update m i
      (some (f, .reading es (some (w.memory.findSubjectSets entity f.relation))))) := by
  subst hrelation
  have hmem : ∀ {s}, s ∈ w.memory.findSubjectSets entity f.relation ↔
      ⟨entity, f.relation, .set s⟩ ∈ stored w.memory := h.represents.mem_findSubjectSets
  refine h.step hi h.represents ?_ (fun _ _ hq => hq)
    (fun hon => (h.settled hon hi).reading fun b hb => ?_) fun _ => Iff.rfl
  · rintro _ _ ⟨⟩
    refine ⟨(h.read hi).1, fun l hl s hs => ?_⟩
    cases hl
    exact (h.represents.wellFormed (hmem.mp hs)).subject
  · rw [hon.eq]
    cases hsubject : tuple.subject with
    | entity e =>
      rw [hsubject] at hb
      exact Or.inr hb
    | set s =>
      rw [hsubject] at hb
      obtain rfl := Option.some.inj hb
      exact Or.inl (decide_eq_true_iff.trans hmem)

/-- What a call read, as its difference reads it. -/
theorem saw_reading {who : Subject} {es : List Entity} {ss : List SubjectSet} :
    ReplacePhase.saw who (.reading (some es) (some ss)) =
      some (decide (who ∈ es.map Subject.entity ++ ss.map Subject.set)) := by
  cases who <;> simp [ReplacePhase.saw]

theorem Replaces.held_wellFormed (h : Replaces model entity relation start tuple wants w m)
    {es : List Entity} {ss : List SubjectSet} (hi : m i = some (f, .reading (some es) (some ss))) :
    ∀ who ∈ es.map Subject.entity ++ ss.map Subject.set, who.WellFormed := by
  obtain ⟨hes, hss⟩ := h.read hi
  intro who hwho
  rcases List.mem_append.mp hwho with hwho | hwho
  · obtain ⟨e, he, rfl⟩ := List.mem_map.mp hwho
    exact hes es rfl e he
  · obtain ⟨s, hs, rfl⟩ := List.mem_map.mp hwho
    exact hss ss rfl s hs

/-- **What the difference holds of a tuple**: added when it is wanted and was not seen, removed when
it was seen and is not wanted. -/
theorem Replaces.mem_diff (h : Replaces model entity relation start tuple wants w m)
    {e : Entity} {tuples : List RelationTuple} (hwanted : f.wanted model = .ok (e, tuples))
    {es : List Entity} {ss : List SubjectSet} (hi : m i = some (f, .reading (some es) (some ss)))
    {d : Diff} (hd : diff e f.relation tuples (es.map .entity ++ ss.map .set) = d) :
    (∀ t, t ∈ d.add ↔ t ∈ tuples ∧ t.subject ∉ es.map Subject.entity ++ ss.map Subject.set) ∧
      ∀ t, t ∈ d.remove ↔ t.On entity relation ∧
        t.subject ∈ es.map Subject.entity ++ ss.map Subject.set ∧ t ∉ tuples := by
  obtain ⟨hf, -⟩ := h.began hi
  obtain ⟨rfl, -, -, -, htuples⟩ := wanted_ok hf hwanted
  have hwell : ∀ t ∈ tuples, t.subject.WellFormed := fun t ht => (htuples t ht).1.subject
  have hone : ∀ t ∈ tuples, t.object = e ∧ t.relation = f.relation := fun t ht =>
    hf.1.symm ▸ (htuples t ht).2
  subst hd
  refine ⟨fun t => mem_diff_add hwell hone (h.held_wellFormed hi), fun t => ?_⟩
  rw [mem_diff_remove hwell hone (h.held_wellFormed hi), hf.1]
  rfl

theorem Replaces.write (h : Replaces model entity relation start tuple wants w m)
    {e : Entity} {tuples : List RelationTuple} (hwanted : f.wanted model = .ok (e, tuples))
    {es : List Entity} {ss : List SubjectSet} (hi : m i = some (f, .reading (some es) (some ss)))
    {d : Diff} (hd : diff e f.relation tuples (es.map .entity ++ ss.map .set) = d) :
    Replaces model entity relation start tuple wants
      { w with memory := w.memory.write d.add d.remove }
      (Function.update m i (some (f, .wrote))) := by
  obtain ⟨hadd, hremove⟩ := h.mem_diff hwanted hi hd
  obtain ⟨hf, hwants⟩ := h.began hi
  have hwants := hwants _ _ hwanted
  obtain ⟨rfl, htype, hid, hrelation, htuples⟩ := wanted_ok hf hwanted
  have hheld := h.held_wellFormed hi
  obtain ⟨hrepresents, hstored⟩ := stored_write h.represents
    (fun t ht => (htuples t ((hadd t).mp ht).1).1) fun t ht => by
      obtain ⟨⟨hobject, htrelation⟩, hseen, -⟩ := (hremove t).mp ht
      have hwho := hheld _ hseen
      exact ⟨hobject ▸ htype, hobject ▸ hid, htrelation ▸ hrelation, hwho.type, hwho.id,
        hwho.relation⟩
  have hstored := hstored tuple
  rw [hadd, hremove, hwants] at hstored
  -- a write leaves a tuple that stands as it is wanted, and sets one that was seen otherwise
  have hkept : (tuple ∈ stored w.memory ↔ wants) →
      (tuple ∈ stored (w.memory.write d.add d.remove) ↔ wants) := by
    rw [hstored]
    grind
  refine h.step hi hrepresents (by nofun) (fun _ q hq => ?_) (fun hon => ?_) fun hoff => ?_
  · cases q with
    | reading es ss => exact fun b hb hb' => hkept (hq b hb hb')
    | wrote => exact hkept hq
  · have hseen := h.settled hon hi _ saw_reading
    simp only [decide_eq_true_iff] at hseen
    change tuple ∈ stored (w.memory.write d.add d.remove) ↔ wants
    rw [hstored]
    grind
  · have hnot : ¬ wants := fun hw => hoff (htuples tuple (hwants.mpr hw)).2
    change tuple ∈ stored (w.memory.write d.add d.remove) ↔ _
    rw [hstored]
    grind

/-- Every call of one begun right keeps it. -/
theorem replaces_keeps (model : ResolvedModel Ctx) (entity : Entity) (relation : Str)
    (start : MemoryRelations) (tuple : RelationTuple) (wants : Prop) :
    (replaceProtocol model).Keeps
      (fun mv => ∀ f, mv = .begin f → f.On model entity relation ∧
        ∀ e tuples, f.wanted model = .ok (e, tuples) → (tuple ∈ tuples ↔ wants))
      (fun w _ m => Replaces model entity relation start tuple wants w m) where
  drift h _ := ⟨h.represents, h.began, h.read, h.settled, h.others⟩
  began {w log m i f} h _ hok := by
    obtain hf := hok f rfl
    refine ⟨h.represents, fun hj => ?_, fun hj => ?_, fun hon => fun hj => ?_, h.others⟩
    · obtain ⟨-, heq⟩ | ⟨-, hj⟩ := update_eq_some.mp hj
      · obtain ⟨rfl, -⟩ := Prod.mk.inj heq
        exact hf
      · exact h.began hj
    · obtain ⟨-, heq⟩ | ⟨-, hj⟩ := update_eq_some.mp hj
      · cases (Prod.mk.inj heq).2
        exact ⟨by simp, by simp⟩
      · exact h.read hj
    · obtain ⟨-, heq⟩ | ⟨-, hj⟩ := update_eq_some.mp hj
      · obtain ⟨rfl, rfl⟩ := Prod.mk.inj heq
        intro b hb
        cases hsubject : tuple.subject <;> simp [replaceProtocol, hsubject, ReplacePhase.saw] at hb
      · exact h.settled hon hj
  called {w w' log m i f p c r p'} h hi _ hexec hstep := by
    obtain ⟨hf, -⟩ := h.began hi
    cases hstep with
    | coin p b =>
      cases hexec
      rwa [Function.update_eq_self_iff.mpr hi.symm]
    | findEntities es ss hwanted =>
      obtain ⟨rfl, -⟩ := wanted_ok hf hwanted
      cases hexec
      exact h.findEntities hi hf.1
    | findSubjectSets es ss hwanted =>
      obtain ⟨rfl, -⟩ := wanted_ok hf hwanted
      cases hexec
      exact h.findSubjectSets hi hf.1
    | write es ss hwanted hd =>
      cases hexec
      exact h.write hwanted hi hd
  ended h _ _ _ := h

/-- **A tuple that every call wants is there once one ended, and one that none wants is gone.** -/
theorem Replaces.ended (h : Replaces model entity relation start tuple wants w m)
    (hon : tuple.On entity relation) (hi : m i = some (f, p)) (hend : ReplaceEnd model f p) :
    tuple ∈ stored w.memory ↔ wants := by
  have hsettled := h.settled hon hi
  obtain rfl | ⟨e, tuples, es, ss, hwanted, rfl, hadd, hremove⟩ := hend
  · exact hsettled
  · obtain ⟨hmadd, hmremove⟩ := h.mem_diff hwanted hi rfl
    have hwants := (h.began hi).2 _ _ hwanted
    have hnotadd := (hmadd tuple).not.mp (by simp [hadd])
    have hnotremove := (hmremove tuple).not.mp (by simp [hremove])
    have hseen := hsettled _ saw_reading
    simp only [decide_eq_true_iff] at hseen
    rw [hwants] at hnotadd hnotremove
    grind

theorem replaces_start {first : Bool} (hstart : Represents start (stored start)) :
    Replaces model entity relation start tuple wants ⟨start, first⟩ fun _ => none :=
  ⟨hstart, by simp, by simp, by simp, fun _ => Iff.rfl⟩

variable {first : Bool} {moves : List (Move Bool Replacing)} {flows : List Replacing}

/-- Where a tuple stands once every call succeeded, of which all want it or none does. -/
theorem replace_settled (tuple : RelationTuple) (wants : Prop)
    (hstart : Represents start (stored start))
    (hflows : moves.filterMap Move.flow = flows) (hsome : flows ≠ [])
    (hon : ∀ f ∈ flows, f.On model entity relation)
    (hended : ∀ thread ∈ ((replacing model).run ⟨start, first⟩ moves).threads,
      ∃ d, thread.2 = .done (.ok d))
    (hwants : ∀ f ∈ flows, ∀ e wanted, f.wanted model = .ok (e, wanted) → (tuple ∈ wanted ↔ wants)) :
    (tuple.On entity relation →
      (tuple ∈ stored ((replacing model).run ⟨start, first⟩ moves).world.memory ↔ wants)) ∧
    (¬ tuple.On entity relation →
      (tuple ∈ stored ((replacing model).run ⟨start, first⟩ moves).world.memory ↔
        tuple ∈ stored start)) := by
  have hok : ∀ mv ∈ moves, ∀ f, mv = .begin f → f.On model entity relation ∧
      ∀ e wanted, f.wanted model = .ok (e, wanted) → (tuple ∈ wanted ↔ wants) := by
    rintro _ hmv f rfl
    have hf : f ∈ flows := hflows ▸ List.mem_filterMap.mpr ⟨_, hmv, rfl⟩
    exact ⟨hon f hf, hwants f hf⟩
  obtain ⟨m, hmatches, h⟩ := (replaces_keeps model entity relation start tuple wants).run
    (replaces_start hstart : Replaces model entity relation start tuple wants ⟨start, first⟩ _) hok
  refine ⟨fun ht => ?_, h.others⟩
  have hthreads := (replacing model).map_fst_threads ⟨start, first⟩ moves
  rw [hflows] at hthreads
  cases hcons : ((replacing model).run ⟨start, first⟩ moves).threads with
  | nil =>
    rw [hcons] at hthreads
    exact absurd hthreads.symm hsome
  | cons thread threads =>
    obtain ⟨d, hd⟩ := hended thread (hcons ▸ List.mem_cons_self)
    have hi : ((replacing model).run ⟨start, first⟩ moves).threads[0]? =
        some (thread.1, .done (.ok d)) := by
      rw [hcons, ← hd]
      rfl
    obtain ⟨⟨p, hp, hfinal⟩, -⟩ := hmatches.done hi
    exact h.ended ht hp (hfinal d rfl)

/-- **Calls that run together stay between what they want**: once all of one or more `replace()`
calls on a relation of an object succeeded, whatever fell between their reads and their writes, who
holds it is wanted by one of them, who all of them want holds it, and nothing else was touched. -/
theorem replace_between {tuples : Set RelationTuple} (hstart : Represents start tuples)
    (hflows : moves.filterMap Move.flow = flows) (hsome : flows ≠ [])
    (hon : ∀ f ∈ flows, f.On model entity relation)
    (hended : ∀ thread ∈ ((replacing model).run ⟨start, first⟩ moves).threads,
      ∃ d, thread.2 = .done (.ok d)) :
    (∀ t ∈ stored ((replacing model).run ⟨start, first⟩ moves).world.memory, t.On entity relation →
      ∃ f ∈ flows, ∃ e wanted, f.wanted model = .ok (e, wanted) ∧ t ∈ wanted) ∧
    (∀ t, (∀ f ∈ flows, ∃ e wanted, f.wanted model = .ok (e, wanted) ∧ t ∈ wanted) →
      t ∈ stored ((replacing model).run ⟨start, first⟩ moves).world.memory) ∧
    ∀ t, ¬ t.On entity relation →
      (t ∈ stored ((replacing model).run ⟨start, first⟩ moves).world.memory ↔ t ∈ tuples) := by
  obtain rfl := hstart.eq_stored
  have hsettled := fun (t : RelationTuple) (wants : Prop) =>
    replace_settled t wants hstart hflows hsome hon hended
  refine ⟨fun t ht hton => ?_, fun t hall => ?_, fun t hoff => ?_⟩
  · by_contra hnone
    exact ((hsettled t False fun f hf e wanted hok =>
      iff_of_false (fun hm => hnone ⟨f, hf, e, wanted, hok, hm⟩) id).1 hton).mp ht
  · obtain ⟨f, hf⟩ := List.exists_mem_of_ne_nil _ hsome
    obtain ⟨e, wanted, hok, hm⟩ := hall f hf
    have hton := ((wanted_ok (hon f hf) hok).2.2.2.2 t hm).2
    refine ((hsettled t True fun f hf e wanted hok => ?_).1 hton).mpr trivial
    obtain ⟨e', wanted', hok', hm⟩ := hall f hf
    cases hok.symm.trans hok'
    exact iff_of_true hm trivial
  · exact (hsettled t False fun f hf e wanted hok =>
      iff_of_false (fun hm => hoff ((wanted_ok (hon f hf) hok).2.2.2.2 t hm).2) id).2 hoff

end Run

/-! ### Two calls at once -/

/-- `replace()` of the viewers of a `doc`. -/
def replacingViewers (ids : List Str) : Replacing where
  object := .record (.of [(js "type", .str (js "doc")), (js "id", .str (js "d1"))] false)
  relation := js "viewer"
  subjects := some (ids.map fun id =>
    .record (.of [(js "type", .str (js "staff")), (js "id", .str id)] false))

/-- Two calls that both read before either writes. -/
def twoReplaces : List (Move Bool Replacing) :=
  [.begin (replacingViewers [js "u1", js "u2"]), .begin (replacingViewers [js "u2", js "u3"]),
    .step 0, .step 0, .step 0, .step 1, .step 1, .step 1, .step 0, .step 1]

def staffViewers : ResolvedModel Unit := viewers (js "staff") isName_staff

theorem replace_between_two :
    (∀ t ∈ stored ((replacing staffViewers).run ⟨[], true⟩ twoReplaces).world.memory,
      t.On ⟨js "doc", js "d1"⟩ (js "viewer") →
        ∃ f ∈ [replacingViewers [js "u1", js "u2"], replacingViewers [js "u2", js "u3"]],
          ∃ e wanted, f.wanted staffViewers = .ok (e, wanted) ∧ t ∈ wanted) ∧
    ∀ t, (∀ f ∈ [replacingViewers [js "u1", js "u2"], replacingViewers [js "u2", js "u3"]],
        ∃ e wanted, f.wanted staffViewers = .ok (e, wanted) ∧ t ∈ wanted) →
      t ∈ stored ((replacing staffViewers).run ⟨[], true⟩ twoReplaces).world.memory := by
  have hflows : twoReplaces.filterMap Move.flow =
      [replacingViewers [js "u1", js "u2"], replacingViewers [js "u2", js "u3"]] := rfl
  have htarget : targetOf staffViewers (replacingViewers []).object (js "viewer") (js "replace") =
      .ok ⟨⟨js "doc", js "d1"⟩, ⟨js "doc", [(js "viewer", .stored [.type (js "staff")])], []⟩,
        [.type (js "staff")]⟩ := rfl
  have hthreads : ((replacing staffViewers).run ⟨[], true⟩ twoReplaces).threads =
      [(replacingViewers [js "u1", js "u2"], .done (.ok ⟨[view (js "staff") (js "u1"),
          view (js "staff") (js "u2")], []⟩)),
        (replacingViewers [js "u2", js "u3"], .done (.ok ⟨[view (js "staff") (js "u2"),
          view (js "staff") (js "u3")], []⟩))] := rfl
  refine And.imp_right And.left (replace_between Represents.nil hflows (List.cons_ne_nil _ _)
    (fun f hf => ?_) fun thread hthread => ?_)
  · obtain rfl | rfl := List.mem_pair.mp hf
    all_goals
      refine ⟨rfl, fun target h => ?_⟩
      cases htarget.symm.trans h
      rfl
  · rw [hthreads] at hthread
    obtain rfl | rfl := List.mem_pair.mp hthread
    · exact ⟨_, rfl⟩
    · exact ⟨_, rfl⟩

end Janus.Permissions
