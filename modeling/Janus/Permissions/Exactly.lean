import Janus.Permissions.Replace

/-!
# Permissions/Exactly — a `replace()` that runs alone

With nobody else writing, a call that succeeds leaves exactly the subjects it was given, answers
what it changed, and made one write or none; one that fails, refused or by a call of the store,
leaves the store as it was (`replace_exact`).
-/

namespace Janus.Permissions

open Js Insertion Calls

/-- Who holds a relation on an object, of either kind. -/
def holdersOf (memory : MemoryRelations) (object : Entity) (relation : Str) : List Subject :=
  (memory.findEntities object relation).map .entity ++
  (memory.findSubjectSets object relation).map .set

/-- The writes among these calls. -/
def writes (calls : List RelationCall) : List (List RelationTuple × List RelationTuple) :=
  calls.filterMap fun
    | .write add remove => some (add, remove)
    | _ => none

section Holders

variable {memory : MemoryRelations} {tuples : Set RelationTuple} (h : Represents memory tuples)
  {object : Entity} {relation : Str}

include h

theorem Represents.mem_holdersOf {who : Subject} :
    who ∈ holdersOf memory object relation ↔ ⟨object, relation, who⟩ ∈ tuples := by
  rw [holdersOf, List.mem_append, List.mem_map, List.mem_map]
  cases who with
  | entity e => simp [h.mem_findEntities]
  | set s => simp [h.mem_findSubjectSets]

theorem Represents.nodup_holdersOf : (holdersOf memory object relation).Nodup := by
  refine List.Nodup.append ((h.nodup_findEntities object relation).map fun _ _ heq => by cases heq; rfl)
    ((h.nodup_findSubjectSets object relation).map fun _ _ heq => by cases heq; rfl) ?_
  intro who hentity hset
  obtain ⟨e, -, rfl⟩ := List.mem_map.mp hentity
  obtain ⟨s, -, heq⟩ := List.mem_map.mp hset
  cases heq

theorem Represents.holders_wellFormed : ∀ who ∈ holdersOf memory object relation, who.WellFormed :=
  fun _ hwho => (h.wellFormed (h.mem_holdersOf.mp hwho)).subject

end Holders

/-! ## What a call alone does -/

section Alone

variable {Ctx : Type} {model : ResolvedModel Ctx} {f : Replacing} {w w' : Shared}
  {calls : List RelationCall}

/-- A call that is no write. -/
def RelationCall.isRead : RelationCall → Prop
  | .write .. => False
  | _ => True

theorem writes_eq_nil (h : ∀ c ∈ calls, RelationCall.isRead c) : writes calls = [] := by
  refine List.filterMap_eq_nil_iff.mpr fun c hc => ?_
  cases c with
  | write add remove => exact (h _ hc).elim
  | _ => rfl

/-- **The two reads write nothing**, and answer who holds the relation, in either order. -/
theorem current_cases {entity : Entity} {relation : Str} {r : Except Failure (List Subject)}
    (h : Runs RelationCall.exec (current entity relation) w calls r w') :
    w' = w ∧ writes calls = [] ∧ ∀ held, r = .ok held →
      held = holdersOf w.memory entity relation := by
  have honly : Only RelationCall.isRead (fun _ => True) (current entity relation) := by
    refine Only.bind (Only.perform trivial) fun first => ?_
    cases first
    · exact Only.bind (Only.perform trivial) fun _ =>
        Only.bind (Only.perform trivial) fun _ => trivial
    · exact Only.bind (Only.perform trivial) fun _ =>
        Only.bind (Only.perform trivial) fun _ => trivial
  obtain ⟨hcalls, hw⟩ := h.of_only honly (J := (· = w)) (fun c w' hc hw' => by
    cases c with
    | write add remove => exact hc.elim
    | _ => exact hw') rfl
  refine ⟨hw, writes_eq_nil hcalls, ?_⟩
  rintro held rfl
  have heval := h.eval_eq
  obtain ⟨memory, first⟩ := w
  cases first <;> exact (Except.ok.inj (congrArg Prod.fst heval)).symm

/-- **A call alone is refused, fails, or makes its difference the one write.** -/
theorem replace_cases {r : Except Failure Diff}
    (h : Runs RelationCall.exec (replace model f) w calls r w') :
    (∃ e, r = .error e) ∧ w' = w ∧ (writes calls).length ≤ 1 ∨
    ∃ entity tuples d, f.wanted model = .ok (entity, tuples) ∧
      diff entity f.relation tuples (holdersOf w.memory entity f.relation) = d ∧ r = .ok d ∧
      w'.memory = w.memory.write d.add d.remove ∧
      writes calls = if d.add = [] ∧ d.remove = [] then [] else [(d.add, d.remove)] := by
  obtain ⟨⟨entity, tuples⟩, calls₁, calls₂, w₁, hwanted, hrest, rfl⟩ | ⟨e, rfl, hwanted⟩ :=
    h.bind_cases
  swap
  · obtain ⟨-, rfl, rfl⟩ := hwanted.done_cases
    exact Or.inl ⟨⟨e, rfl⟩, rfl, Nat.zero_le _⟩
  obtain ⟨hok, rfl, rfl⟩ := hwanted.done_cases
  obtain ⟨held, calls₃, calls₄, w₂, hcurrent, hlast, rfl⟩ | ⟨e, rfl, hcurrent⟩ := hrest.bind_cases
  swap
  · obtain ⟨rfl, hnone, -⟩ := current_cases hcurrent
    exact Or.inl ⟨⟨e, rfl⟩, rfl, by rw [List.nil_append, hnone]; exact Nat.zero_le _⟩
  obtain ⟨rfl, hnone, hheld⟩ := current_cases hcurrent
  obtain rfl := hheld held rfl
  have hwrites : writes ([] ++ (calls₃ ++ calls₄)) = writes calls₄ := by
    rw [List.nil_append, writes, List.filterMap_append]
    exact (congrArg (· ++ _) hnone).trans (List.nil_append _)
  rw [hwrites]
  dsimp only at hlast
  generalize hd : diff entity f.relation tuples (holdersOf w₂.memory entity f.relation) = d at hlast
  split at hlast
  case isTrue hsome =>
    obtain ⟨_, calls₅, calls₆, w₃, hwrite, hdone, rfl⟩ | ⟨e, rfl, hwrite⟩ := hlast.bind_cases
    swap
    · obtain ⟨rfl, ⟨heq, -⟩ | ⟨-, rfl⟩⟩ := hwrite.perform_cases
      · cases heq
      · exact Or.inl ⟨⟨e, rfl⟩, rfl, Nat.le_refl _⟩
    obtain ⟨rfl, ⟨-, rfl⟩ | ⟨⟨e, heq⟩, -⟩⟩ := hwrite.perform_cases
    · obtain ⟨rfl, rfl, rfl⟩ := hdone.done_cases
      refine Or.inr ⟨entity, tuples, d, hok.symm, hd, rfl, rfl, ?_⟩
      have hdiffer : ¬ (d.add = [] ∧ d.remove = []) := by
        rintro ⟨hadd, hremove⟩
        simp [hadd, hremove] at hsome
      rw [if_neg hdiffer]
      rfl
    · cases heq
  case isFalse hnothing =>
    obtain ⟨rfl, rfl, rfl⟩ := hlast.done_cases
    obtain ⟨hadd, hremove⟩ : d.add = [] ∧ d.remove = [] := by simpa using hnothing
    refine Or.inr ⟨entity, tuples, d, hok.symm, hd, rfl, ?_, (if_pos ⟨hadd, hremove⟩).symm⟩
    rw [hadd, hremove]
    rfl

/-- **The subjects wanted are those the list reads as**, each about the target. -/
theorem wanted_iff {entity : Entity} {tuples : List RelationTuple}
    (h : f.wanted model = .ok (entity, tuples)) :
    ∃ target subjects, f.subjects = some subjects ∧
      targetOf model f.object f.relation (js "replace") = .ok target ∧ target.entity = entity ∧
      ∀ who, ⟨entity, f.relation, who⟩ ∈ tuples ↔
        ∃ arg ∈ subjects, subjectOf model arg (js "replace") = .ok who := by
  unfold Replacing.wanted at h
  dsimp only at h
  split at h
  case h_1 => cases h
  case h_2 subjects hsubjects =>
    obtain ⟨target, htarget, h⟩ := Except.bind_ok.mp h
    obtain ⟨_, htuples, h⟩ := Except.bind_ok.mp h
    cases h
    have hread : ∀ {arg t}, tupleOf model f.object f.relation arg (js "replace") = .ok t →
        subjectOf model arg (js "replace") = .ok t.subject ∧
        t = ⟨target.entity, f.relation, t.subject⟩ := by
      intro arg t ht
      obtain ⟨target', htarget', ht⟩ := Except.bind_ok.mp ht
      obtain ⟨who, hwho, ht⟩ := Except.bind_ok.mp ht
      cases htarget.symm.trans htarget'
      split at ht
      · cases ht
      split at ht
      · cases ht
      obtain rfl := Except.pure_ok.mp ht
      exact ⟨hwho, rfl⟩
    have hall := List.mapM_oks htuples
    refine ⟨target, subjects, hsubjects, htarget, rfl, fun who => ⟨fun hmem => ?_, ?_⟩⟩
    · obtain ⟨k, hk⟩ := List.getElem?_of_mem hmem
      obtain ⟨arg, harg, hok⟩ := List.mapM_ok htuples hk
      exact ⟨arg, List.mem_of_getElem? harg, (hread hok).1⟩
    · rintro ⟨arg, harg, hwho⟩
      obtain ⟨t, ht, hok⟩ := hall.exists_right harg
      obtain ⟨hsubject, heq⟩ := hread hok
      cases hwho.symm.trans hsubject
      rwa [← heq]

/-- No tuple is added twice, or removed twice. -/
theorem nodup_diff (entity : Entity) (relation : Str) (tuples : List RelationTuple)
    (held : List Subject) :
    (diff entity relation tuples held).add.Nodup ∧
      (diff entity relation tuples held).remove.Nodup := by
  refine ⟨nodup_values_filter_indexBy _, ?_⟩
  have hinj : Function.Injective fun who => (⟨entity, relation, who⟩ : RelationTuple) :=
    fun _ _ heq => by cases heq; rfl
  have hremove : (diff entity relation tuples held).remove =
      (((indexBy keyOf held).filter fun e => (get (indexBy (fun tuple : RelationTuple =>
        keyOf tuple.subject) tuples) e.1).isNone).map Prod.snd).map fun who =>
          ⟨entity, relation, who⟩ := by
    rw [List.map_map]
    rfl
  rw [hremove]
  exact (nodup_values_filter_indexBy _).map hinj

end Alone

/-! ## Exactly the wanted holders -/

/-- **What a `replace()` alone does to the store**: on success its holders are the subjects it was
given, and what it answers is the difference it made, by one write or none; a failure changed
nothing. -/
structure ReplacesExactly {Ctx : Type} (model : ResolvedModel Ctx) (f : Replacing)
    (before after : MemoryRelations) (calls : List RelationCall)
    (r : Except Failure Diff) : Prop where
  replaced : ∀ d, r = .ok d → ∃ target subjects, f.subjects = some subjects ∧
    targetOf model f.object f.relation (js "replace") = .ok target ∧
    (∀ who, who ∈ holdersOf after target.entity f.relation ↔
      ∃ arg ∈ subjects, subjectOf model arg (js "replace") = .ok who) ∧
    (holdersOf after target.entity f.relation).Nodup ∧
    (∀ t, ¬ t.On target.entity f.relation → (t ∈ stored after ↔ t ∈ stored before)) ∧
    d.add.Nodup ∧ d.remove.Nodup ∧ d.add.Disjoint d.remove ∧
    (∀ t, t ∈ d.add ↔ t.On target.entity f.relation ∧ t ∈ stored after ∧ t ∉ stored before) ∧
    (∀ t, t ∈ d.remove ↔ t.On target.entity f.relation ∧ t ∈ stored before ∧ t ∉ stored after) ∧
    writes calls = if d.add = [] ∧ d.remove = [] then [] else [(d.add, d.remove)]
  failed : ∀ e, r = .error e → after = before
  writes_le : (writes calls).length ≤ 1
  represents : Represents after (stored after)

/-- **`replace()` sets exactly the wanted holders**, whatever the store holds and whatever it is
given; refused, or failed by a call of the store, it changes nothing. -/
theorem replace_exact {Ctx : Type} (model : ResolvedModel Ctx) (f : Replacing)
    {tuples : Set RelationTuple}
    {w w' : Shared} (h : Represents w.memory tuples) {calls : List RelationCall}
      {r : Except Failure Diff}
    (hruns : Runs RelationCall.exec (replace model f) w calls r w') :
    ReplacesExactly model f w.memory w'.memory calls r := by
  obtain rfl := h.eq_stored
  obtain ⟨⟨e, rfl⟩, rfl, hwrites⟩ | ⟨entity, wanted, d, hwanted, hd, rfl, hmemory, hwrites⟩ :=
    replace_cases hruns
  · exact ⟨nofun, fun _ _ => rfl, hwrites, h⟩
  obtain ⟨target, subjects, hsubjects, htarget, rfl, hread⟩ := wanted_iff hwanted
  have hon : f.On model target.entity f.relation :=
    ⟨rfl, fun _ htarget' => by cases htarget.symm.trans htarget'; rfl⟩
  obtain ⟨-, htype, hid, hrelation, htuples⟩ := wanted_ok hon hwanted
  have hwell : ∀ t ∈ wanted, t.subject.WellFormed := fun t ht => (htuples t ht).1.subject
  have hone : ∀ t ∈ wanted, t.object = target.entity ∧ t.relation = f.relation :=
    fun t ht => (htuples t ht).2
  have hheld : ∀ who ∈ holdersOf w.memory target.entity f.relation, who.WellFormed :=
    h.holders_wellFormed
  have hadd : ∀ t, t ∈ d.add ↔ t ∈ wanted ∧ t ∉ stored w.memory := by
    intro t
    rw [← hd, mem_diff_add hwell hone hheld]
    refine and_congr_right fun ht => not_congr ?_
    rw [h.mem_holdersOf]
    obtain ⟨hobject, htrelation⟩ := hone t ht
    rw [← hobject, ← htrelation]
  have hremove : ∀ t, t ∈ d.remove ↔
      t.On target.entity f.relation ∧ t ∈ stored w.memory ∧ t ∉ wanted := by
    intro t
    rw [← hd, mem_diff_remove hwell hone hheld]
    refine and_congr_right fun ht => and_congr_left fun _ => ?_
    rw [h.mem_holdersOf, ← ht.1, ← ht.2]
  obtain ⟨hrepresents, hstored⟩ := stored_write h
    (fun t ht => (htuples t ((hadd t).mp ht).1).1) fun t ht => h.wellFormed ((hremove t).mp ht).2.1
  rw [← hmemory] at hrepresents hstored
  have hafter : ∀ t, t.On target.entity f.relation → (t ∈ stored w'.memory ↔ t ∈ wanted) := by
    intro t ht
    rw [hstored, hadd, hremove]
    tauto
  have hothers : ∀ t, ¬ t.On target.entity f.relation →
    (t ∈ stored w'.memory ↔ t ∈ stored w.memory) := by
    intro t ht
    have hnot : t ∉ wanted := fun hmem => ht (hone t hmem)
    rw [hstored, hadd, hremove]
    tauto
  refine ⟨?_, nofun, ?_, hrepresents⟩
  · rintro _ ⟨⟩
    refine ⟨target, subjects, hsubjects, htarget, fun who => ?_,
      hrepresents.nodup_holdersOf, hothers,
      hd ▸ (nodup_diff ..).1, hd ▸ (nodup_diff ..).2, fun t hta htr => ?_, fun t =>
      ?_, fun t => ?_, hwrites⟩
    · rw [hrepresents.mem_holdersOf, hafter _ ⟨rfl, rfl⟩, hread]
    · exact ((hremove t).mp htr).2.2 ((hadd t).mp hta).1
    · rw [hadd]
      exact ⟨fun ⟨hmem, hnot⟩ => ⟨hone t hmem, (hafter t (hone t hmem)).mpr hmem, hnot⟩,
        fun ⟨ht, hmem, hnot⟩ => ⟨(hafter t ht).mp hmem, hnot⟩⟩
    · rw [hremove]
      exact and_congr_right fun ht => and_congr_right fun _ => not_congr (hafter t ht).symm
  · rw [hwrites]
    split
    · exact Nat.zero_le _
    · exact Nat.le_refl _

/-! ### A list with duplicates, over a holder no longer admitted -/

/-- Two of the staff view the `doc`, and a patient from before the model admitted staff alone. -/
def onceViewed : List Change :=
  [.write [view (js "staff") (js "u1"), view (js "staff") (js "u2"), view (js "patient") (js "p1")] []]

/-- `u2` twice, and `u3`. -/
def wantedTwice : Replacing := replacingViewers [js "u2", js "u2", js "u3"]

theorem represents_onceViewed : Represents (memoryAfter onceViewed) (tuplesAfter onceViewed) := by
  refine represents_after fun change hchange t ht => ?_
  obtain rfl := List.mem_singleton.mp hchange
  simp only [Change.tuples, List.append_nil, List.mem_cons, List.not_mem_nil, or_false] at ht
  obtain rfl | rfl | rfl := ht <;> exact admitted_view (by decide) (by decide) (by decide)

theorem replace_exact_twice :
    ∃ calls after, ReplacesExactly staffViewers wantedTwice (memoryAfter onceViewed) after calls
      (.ok ⟨[view (js "staff") (js "u3")], [view (js "staff") (js "u1"), view (js "patient") (js "p1")]⟩) := by
  obtain ⟨calls, hruns⟩ := Runs.of_eval RelationCall.exec (replace staffViewers wantedTwice)
    ⟨memoryAfter onceViewed, true⟩
  exact ⟨calls, _, replace_exact staffViewers wantedTwice represents_onceViewed hruns⟩

end Janus.Permissions
