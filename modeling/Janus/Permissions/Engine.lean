import Janus.Permissions.Exactly
import Janus.Permissions.Fields
import Janus.Permissions.Racing

/-!
# Permissions/Engine — `permissions()` over one store

After any calls, the tuples stored are those that **stand**: given by a call, and taken back by none
since (`represents_calls`).  So `can()` answers what the standing tuples derive, whatever calls left
them there (`engine_decides`): more of them never make it deny what it granted (`engine_mono`), and
past its deletion a subject holds only what an object's field says (`deleted_by_field`).
-/

namespace Janus.Permissions

open Js Insertion Calls

variable {Ctx : Type}

/-! ## Calls of the engine -/

/-- What `change()` is made for. -/
inductive Operation where
  | grant
  | revoke

def Operation.text : Operation → Str
  | .grant => js "grant"
  | .revoke => js "revoke"

/-- `grant()` and `revoke()`: the tuple is read first, so a refusal writes nothing. -/
def change (model : ResolvedModel Ctx) (operation : Operation) (object : Arg) (relation : Str)
    (subject : Arg) (memory : MemoryRelations) : Except Failure Unit × MemoryRelations :=
  match tupleOf model object relation subject operation.text with
  | .error failure => (.error failure, memory)
  | .ok tuple =>
    match operation with
    | .grant => (.ok (), memory.write [tuple] [])
    | .revoke => (.ok (), memory.write [] [tuple])

/-- A call that changes what the store of an engine holds: its own, and what deleting a user or an
object calls. -/
inductive EngineCall where
  | change (operation : Operation) (object : Arg) (relation : Str) (subject : Arg)
  | replace (f : Replacing)
  | deleteEntity (entity : Entity)

namespace EngineCall

variable (model : ResolvedModel Ctx)

/-- The store after a call that runs alone. -/
def exec (memory : MemoryRelations) : EngineCall → MemoryRelations
  | .change operation object relation subject =>
    (Permissions.change model operation object relation subject memory).2
  | .replace f => ((Permissions.replace model f).eval RelationCall.exec ⟨memory, true⟩).2.memory
  | .deleteEntity entity => (memory.deleteEntity entity).2

/-- The tuples a call gives. -/
def gives : EngineCall → Set RelationTuple
  | .change .grant object relation subject =>
    {t | tupleOf model object relation subject (js "grant") = .ok t}
  | .change .revoke .. => ∅
  | .replace f => {t | ∃ entity wanted, f.wanted model = .ok (entity, wanted) ∧ t ∈ wanted}
  | .deleteEntity _ => ∅

/-- The tuples a call takes back, unless it gives them. -/
def takes : EngineCall → Set RelationTuple
  | .change .grant .. => ∅
  | .change .revoke object relation subject =>
    {t | tupleOf model object relation subject (js "revoke") = .ok t}
  | .replace f =>
    {t | ∃ entity wanted, f.wanted model = .ok (entity, wanted) ∧ t.On entity f.relation}
  | .deleteEntity entity => {t | t.Mentions entity}

end EngineCall

/-- The store after some calls. -/
def storeAfter (model : ResolvedModel Ctx) (calls : List EngineCall) : MemoryRelations :=
  calls.foldl (EngineCall.exec model) []

/-- **A tuple stands**: a call gave it, and none took it back since. -/
def Standing (model : ResolvedModel Ctx) (calls : List EngineCall) (t : RelationTuple) : Prop :=
  ∃ before call after, calls = before ++ call :: after ∧ t ∈ call.gives model ∧
    ∀ later ∈ after, t ∉ later.takes model

section Stands

variable {model : ResolvedModel Ctx} {calls : List EngineCall} {call : EngineCall}
  {t : RelationTuple}

theorem not_standing_nil : ¬ Standing model [] t := by
  rintro ⟨before, call, after, h, _⟩
  simp at h

/-- One call more. -/
theorem standing_concat : Standing model (calls ++ [call]) t ↔
    t ∈ call.gives model ∨ Standing model calls t ∧ t ∉ call.takes model := by
  constructor
  · rintro ⟨before, given, after, h, hgives, hkept⟩
    obtain ⟨rfl, rfl⟩ | ⟨after, rfl, rfl⟩ := concat_eq_append_cons h
    · exact Or.inl hgives
    · exact Or.inr ⟨⟨before, given, after, rfl, hgives,
        fun later hl => hkept later (List.mem_append_left _ hl)⟩, hkept call (by simp)⟩
  · rintro (hgives | ⟨⟨before, given, after, rfl, hgives, hkept⟩, hnot⟩)
    · exact ⟨calls, call, [], rfl, hgives, by simp⟩
    · refine ⟨before, given, after ++ [call], by simp, hgives, fun later hl => ?_⟩
      obtain hl | rfl : later ∈ after ∨ later = call := by simpa using hl
      · exact hkept later hl
      · exact hnot

/-- What stands after more calls stood before them, or one of them gave it. -/
theorem Standing.of_append {more : List EngineCall} (h : Standing model (calls ++ more) t) :
    Standing model calls t ∨ ∃ call ∈ more, t ∈ call.gives model := by
  induction more using List.reverseRecOn with
  | nil => exact Or.inl (by simpa using h)
  | append_singleton more call ih =>
    rw [← List.append_assoc, standing_concat] at h
    obtain hgives | ⟨h, _⟩ := h
    · exact Or.inr ⟨call, by simp, hgives⟩
    · obtain h | ⟨given, hmem, hgives⟩ := ih h
      · exact Or.inl h
      · exact Or.inr ⟨given, List.mem_append_left _ hmem, hgives⟩

end Stands

/-! ## What the store holds -/

section Holds

variable {model : ResolvedModel Ctx} {memory : MemoryRelations} {tuples : Set RelationTuple}

/-- **A `replace()` that runs alone** is refused, or writes its difference. -/
theorem eval_replace (f : Replacing) (w : Shared) :
    (replace model f).eval RelationCall.exec w = match f.wanted model with
      | .error failure => (.error failure, w)
      | .ok (entity, wanted) =>
        let d := diff entity f.relation wanted (holdersOf w.memory entity f.relation)
        (.ok d, { w with memory := w.memory.write d.add d.remove }) := by
  cases hwanted : f.wanted model with
  | error failure =>
    rw [replace, hwanted]
    rfl
  | ok target =>
    obtain ⟨entity, wanted⟩ := target
    have hcurrent : (current entity f.relation).eval RelationCall.exec w =
        (.ok (holdersOf w.memory entity f.relation), w) := by
      obtain ⟨memory, first⟩ := w
      cases first <;> rfl
    have hread : (.done (.ok (entity, wanted)) : Prog RelationCall RelationCall.Answer Failure
        (Entity × List RelationTuple)).eval RelationCall.exec w = (.ok (entity, wanted), w) := rfl
    rw [replace, hwanted, Prog.eval_bind hread, Prog.eval_bind hcurrent]
    dsimp only
    split
    · rfl
    case isFalse hempty =>
      simp only [Bool.or_eq_true, Bool.not_eq_true', not_or, Bool.not_eq_false,
        List.isEmpty_iff] at hempty
      rw [hempty.1, hempty.2]
      rfl

theorem wanted_wellFormed {f : Replacing} {entity : Entity} {wanted : List RelationTuple}
    (h : f.wanted model = .ok (entity, wanted)) :
    ∀ t ∈ wanted, t.WellFormed ∧ t.On entity f.relation := by
  obtain ⟨target, _, _, htarget, rfl, _⟩ := wanted_iff h
  have hon : f.On model target.entity f.relation :=
    ⟨rfl, fun _ htarget' => by cases htarget.symm.trans htarget'; rfl⟩
  exact (wanted_ok hon h).2.2.2.2

/-- **Each call takes back, then gives.** -/
theorem Represents.engineCall (h : Represents memory tuples) (call : EngineCall) :
    Represents (call.exec model memory) ((tuples \ call.takes model) ∪ call.gives model) := by
  cases call with
  | change operation object relation subject =>
    rw [EngineCall.exec, change]
    cases operation with
    | grant =>
      cases hread : tupleOf model object relation subject (js "grant") with
      | error failure => simpa [Operation.text, EngineCall.takes, EngineCall.gives, hread] using h
      | ok t =>
        have hwrite : Represents (memory.write [t] []) _ :=
          h.write (by simpa using (tupleOf_ok hread).1) (by simp)
        simpa [Operation.text, EngineCall.takes, EngineCall.gives, hread, eq_comm] using hwrite
    | revoke =>
      cases hread : tupleOf model object relation subject (js "revoke") with
      | error failure => simpa [Operation.text, EngineCall.takes, EngineCall.gives, hread] using h
      | ok t =>
        have hwrite : Represents (memory.write [] [t]) _ :=
          h.write (by simp) (by simpa using (tupleOf_ok hread).1)
        simpa [Operation.text, EngineCall.takes, EngineCall.gives, hread, eq_comm] using hwrite
  | deleteEntity entity =>
    have hset : (tuples \ EngineCall.takes model (.deleteEntity entity)) ∪
        EngineCall.gives model (.deleteEntity entity) =
          {t ∈ tuples | ¬ t.Mentions entity} := by
      ext t
      simp [EngineCall.takes, EngineCall.gives]
    rw [hset]
    exact h.deleteEntity entity
  | replace f =>
    rw [EngineCall.exec, eval_replace]
    cases hwanted : f.wanted model with
    | error failure => simpa [EngineCall.takes, EngineCall.gives, hwanted] using h
    | ok target =>
      obtain ⟨entity, wanted⟩ := target
      have hone := wanted_wellFormed hwanted
      have hwell : ∀ t ∈ wanted, t.subject.WellFormed := fun t ht => (hone t ht).1.subject
      have hadd : ∀ t, t ∈ (diff entity f.relation wanted
          (holdersOf memory entity f.relation)).add ↔ t ∈ wanted ∧ t ∉ tuples := by
        intro t
        rw [mem_diff_add hwell (fun t ht => (hone t ht).2) h.holders_wellFormed]
        refine and_congr_right fun ht => not_congr ?_
        obtain ⟨hobject, hrelation⟩ := (hone t ht).2
        rw [h.mem_holdersOf, ← hobject, ← hrelation]
      have hremove : ∀ t, t ∈ (diff entity f.relation wanted
          (holdersOf memory entity f.relation)).remove ↔
            t.On entity f.relation ∧ t ∈ tuples ∧ t ∉ wanted := by
        intro t
        rw [mem_diff_remove hwell (fun t ht => (hone t ht).2) h.holders_wellFormed]
        refine and_congr_right fun ht => and_congr_left fun _ => ?_
        rw [h.mem_holdersOf, ← ht.1, ← ht.2]
      have hwrite := h.write (fun t ht => (hone t ((hadd t).mp ht).1).1)
        fun t ht => h.wellFormed ((hremove t).mp ht).2.1
      have hset : (tuples \ EngineCall.takes model (.replace f)) ∪
          EngineCall.gives model (.replace f) =
            (tuples \ {t | t ∈ (diff entity f.relation wanted
              (holdersOf memory entity f.relation)).remove}) ∪
            {t | t ∈ (diff entity f.relation wanted
              (holdersOf memory entity f.relation)).add} := by
        ext t
        have hon := fun ht => (hone t ht).2
        simp only [EngineCall.takes, EngineCall.gives, hwanted, Set.mem_union, Set.mem_sdiff,
          Set.mem_ofPred_eq, hadd, hremove, Except.ok.injEq, Prod.mk.injEq, ↓existsAndEq,
          true_and]
        tauto
      rw [hset]
      exact hwrite

/-- **After any calls, the store holds the standing tuples.** -/
theorem represents_calls (model : ResolvedModel Ctx) (calls : List EngineCall) :
    Represents (storeAfter model calls) {t | Standing model calls t} := by
  induction calls using List.reverseRecOn with
  | nil =>
    have hset : {t | Standing model [] t} = ∅ := Set.eq_empty_of_forall_notMem fun _ =>
      not_standing_nil
    rw [hset]
    exact .nil
  | append_singleton calls call ih =>
    have hset : {t | Standing model (calls ++ [call]) t} =
        ({t | Standing model calls t} \ call.takes model) ∪ call.gives model := by
      ext t
      simp only [Set.mem_ofPred_eq, standing_concat, Set.mem_union, Set.mem_sdiff]
      tauto
    rw [hset, storeAfter, List.foldl_append, List.foldl_cons, List.foldl_nil]
    exact ih.engineCall call

end Holds

/-! ## What `can()` answers -/

/-- What a derivation without a tuple of its subject ends at: a field that names the subject. -/
theorem Holds.of_unnamed {q : Situation Ctx} (h : ∀ t ∈ q.tuples, t.subject ≠ q.subject)
    {e : Entity} {name : Str} (hholds : Holds q e name) :
    ∃ e' relation field subject id lookup,
      RelationOf q e' relation (.fromField field subject lookup) ∧ Carries q e' field id ∧
        q.subject = .entity ⟨subject, id⟩ := by
  induction hholds with
  | tuple _ _ hm => exact absurd rfl (h _ hm)
  | set _ _ _ _ ih => exact ih
  | field hr hc hs => exact ⟨_, _, _, _, _, _, hr, hc, hs⟩
  | name _ _ _ _ _ ih => exact ih
  | arrow _ _ _ _ _ _ ih => exact ih

open Racing

/-- More tuples entitle to more. -/
theorem Racing.Entitled.mono {model : ResolvedModel Ctx} {check : Check Ctx}
    {tuples tuples' : List RelationTuple} (hsub : tuples ⊆ tuples')
    (h : Entitled model check tuples) : Entitled model check tuples' := by
  obtain ⟨root, who, hroot, hwho, hst, hwst, hholds⟩ := h
  have hextends : Extends ⟨model, tuples, rootFields root, check.ctx, who⟩
      ⟨model, tuples', rootFields root, check.ctx, who⟩ :=
    ⟨id, fun h => ⟨_, h, fun _ => id⟩, hsub, id, rfl, rfl⟩
  exact ⟨root, who, hroot, hwho, hst, hwst, hholds.mono hextends⟩

/-- `can()` of an engine whose store is in memory, after some calls. -/
def canAfter (model : ResolvedModel Ctx) (maxDepth : ℕ) (calls : List EngineCall)
    (check : Check Ctx) : Except Failure Bool :=
  can ⟨model, (storeAfter model calls).store, maxDepth⟩ check.subject check.permission check.object
    check.ctx

section Can

variable {model : ResolvedModel Ctx} {maxDepth : ℕ} {calls : List EngineCall} {check : Check Ctx}
  {b : Bool}

/-- **`can()` answers what is entitled by the tuples stored.** -/
theorem canAfter_iff (h : canAfter model maxDepth calls check = .ok b) :
    b = true ↔ Entitled model check (storeAfter model calls).values := by
  have hanswers : ∀ c r, (storeAfter model calls).store.answer c = .ok r →
      Between (storeAfter model calls).values (storeAfter model calls).values c r := by
    intro c r hr
    have hbetween := (represents_calls model calls).between (List.Subset.refl _)
      (List.Subset.refl _) c
    cases c <;> exact Except.pure_ok.mp hr ▸ hbetween
  rw [canAfter, ← can_answered] at h
  have hdecides := (can_always _ check).answered hanswers h
  cases b with
  | true => exact iff_of_true rfl (hdecides.1 rfl)
  | false => exact iff_of_false Bool.false_ne_true (hdecides.2 rfl)

theorem mem_storeAfter {t : RelationTuple} :
    t ∈ (storeAfter model calls).values ↔ Standing model calls t :=
  (represents_calls model calls).mem_values

end Can

/-- **`can()` decides what stands.**  After any calls of the engine, refused or not, the store holds
exactly the tuples that stand — given by a call, and taken back by none since — and a check ends;
where it answers, it answers `true` exactly when the tuples stored entitle its subject. -/
theorem engine_decides (model : ResolvedModel Ctx) (maxDepth : ℕ) (calls : List EngineCall)
    (hb : Terminating model (storeAfter model calls).store) :
    (∀ t, t ∈ (storeAfter model calls).values ↔ Standing model calls t) ∧
    ∀ check, canAfter model maxDepth calls check ≠ .error .outOfFuel ∧
      ∀ b, canAfter model maxDepth calls check = .ok b →
        (b = true ↔ Entitled model check (storeAfter model calls).values) :=
  have hends := @can_ne_outOfFuel Ctx ⟨model, (storeAfter model calls).store, maxDepth⟩ hb
  ⟨fun _ => mem_storeAfter, fun check =>
    ⟨hends check.subject check.object check.permission check.ctx, fun _ => canAfter_iff⟩⟩

/-- **What stands decides, and more of it never denies.**  Where everything that stands after some
calls stands after others, no check answered `true` after the first is answered `false` after the
second: a grant takes nothing from anybody, a revocation gives nothing to anybody, and calls that
leave the same tuples are answered alike. -/
theorem engine_mono (model : ResolvedModel Ctx) (maxDepth : ℕ) {calls calls' : List EngineCall}
    (hstanding : ∀ t, Standing model calls t → Standing model calls' t) {check : Check Ctx}
    (h : canAfter model maxDepth calls check = .ok true) :
    canAfter model maxDepth calls' check ≠ .ok false := by
  intro h'
  have hsub : (storeAfter model calls).values ⊆ (storeAfter model calls').values := fun t ht =>
    mem_storeAfter.mpr (hstanding t (mem_storeAfter.mp ht))
  have hentitled := ((canAfter_iff h).mp rfl).mono hsub
  exact absurd ((canAfter_iff h').mpr hentitled) Bool.false_ne_true

/-- **Past its deletion, a subject holds only what a field says.**  Whatever was granted before, and
whatever is granted after to others: when `can()` still answers `true` for an entity, the object
passed names it in a field that a relation of the object's type is read from. -/
theorem deleted_by_field (model : ResolvedModel Ctx) (maxDepth : ℕ)
    {before after : List EngineCall} {entity : Entity}
    (hafter : ∀ call ∈ after, ∀ t ∈ call.gives model, t.subject ≠ .entity entity)
    {check : Check Ctx} (hwho : subjectOf model check.subject (js "can") = .ok (.entity entity))
    (h : canAfter model maxDepth (before ++ .deleteEntity entity :: after) check = .ok true) :
    ∃ root type relation field lookup,
      objectOf model check.object (js "can") = .ok root ∧ get model.types root.type = some type ∧
      get type.relations relation = some (.fromField field entity.type lookup) ∧
      root.data.field field = .str entity.id := by
  obtain ⟨root, who, hroot, hwho', -, -, hholds⟩ := (canAfter_iff h).mp rfl
  obtain rfl := Except.ok.inj (hwho.symm.trans hwho')
  have hunnamed : ∀ t ∈ (storeAfter model (before ++ .deleteEntity entity :: after)).values,
      t.subject ≠ .entity entity := by
    intro t ht heq
    have hstanding := mem_storeAfter.mp ht
    rw [show before ++ EngineCall.deleteEntity entity :: after =
      (before ++ [.deleteEntity entity]) ++ after by simp] at hstanding
    obtain hstanding | ⟨call, hcall, hgives⟩ := hstanding.of_append
    · obtain hgives | ⟨_, hnot⟩ := standing_concat.mp hstanding
      · exact hgives
      · obtain ⟨object, relation, subject⟩ := t
        obtain rfl : subject = .entity entity := heq
        exact hnot (.subject object relation)
    · exact hafter call hcall t hgives heq
  obtain ⟨e, relation, field, subject, id, lookup, hr, hc, hs⟩ :=
    Holds.of_unnamed (q := ⟨model, _, rootFields root, check.ctx, .entity entity⟩) hunnamed hholds
  obtain rfl : entity = ⟨subject, id⟩ := Subject.entity.inj hs
  obtain ⟨data, hdata, hfield, -⟩ := hc
  obtain ⟨rfl, rfl⟩ : e = ⟨root.type, root.id⟩ ∧ root.data = data := by
    simpa [rootFields] using hdata
  obtain ⟨type, htype, hrelation⟩ := hr
  exact ⟨root, type, relation, field, lookup, hroot, htype, hrelation, hfield⟩

/-! ## Ada, granted and deleted -/

/-- The members of a team, as a caller names them. -/
def membersOf (team : Str) : Arg := .record <|
  .of [(js "type", .str (js "team")), (js "id", .str team), (js "relation", .str (js "members"))]
    false

/-- A team that views the record, and Ada its member. -/
def adaGranted : List EngineCall := [
  .change .grant adaViews.object (js "viewers") (membersOf (js "t1")),
  .change .grant (.record (row (js "team") (js "t1"))) (js "members") adaViews.subject]

/-- …and another team that does. -/
def anotherTeam : EngineCall := .change .grant adaViews.object (js "viewers") (membersOf (js "t2"))

theorem MemoryRelations.store_terminates (memory : MemoryRelations) : Terminates memory.store :=
  ⟨fun _ h => Except.pure_error.mp h, fun _ _ h => Except.pure_error.mp h,
    fun _ _ h => Except.pure_error.mp h, fun _ h => Except.pure_error.mp h⟩

/-- Ada views the record by the two tuples granted, and by neither alone. -/
theorem engine_decides_ada :
    (∀ t, t ∈ (storeAfter clinic adaGranted).values ↔ Standing clinic adaGranted t) ∧
    Entitled clinic adaViews (storeAfter clinic adaGranted).values ∧
    ∀ call ∈ adaGranted, ¬ Entitled clinic adaViews (storeAfter clinic [call]).values := by
  have hdecides := fun calls => engine_decides clinic 10 calls
    (clinic_terminating (storeAfter clinic calls).store_terminates)
  have hboth : canAfter clinic 10 adaGranted adaViews = .ok true := by decide
  have halone : ∀ call ∈ adaGranted, canAfter clinic 10 [call] adaViews = .ok false := by decide
  refine ⟨(hdecides _).1, (((hdecides _).2 adaViews).2 true hboth).mp rfl, fun call hcall h => ?_⟩
  exact Bool.false_ne_true
    ((((hdecides [call]).2 adaViews).2 false (halone call hcall)).mpr h)

theorem engine_mono_ada :
    canAfter clinic 10 (adaGranted ++ [anotherTeam]) adaViews ≠ .ok false := by
  have hstanding : ∀ t, Standing clinic adaGranted t →
      Standing clinic (adaGranted ++ [anotherTeam]) t := fun t ht =>
    standing_concat.mpr (Or.inr ⟨ht, by simp [anotherTeam, EngineCall.takes]⟩)
  exact engine_mono clinic 10 hstanding (by decide)

/-- A note of Ada's, its row. -/
def adasNote : Arg := .record <|
  .of [(js "type", .str (js "note")), (js "id", .str (js "n1")), (js "authorId", .str (js "ada"))]
    false

/-- The note is in a folder Ada views, until she is deleted; then Bo views it. -/
def folderOf (viewer : Str) : EngineCall :=
  .change .grant (.record (row (js "folder") (js "f1"))) (js "viewers")
    (.record (row (js "staff") viewer))

/-- Ada still edits the note she wrote: its row says so. -/
theorem deleted_by_field_ada :
    ∃ root type relation field lookup,
      objectOf notes adasNote (js "can") = .ok root ∧ get notes.types root.type = some type ∧
      get type.relations relation = some (.fromField field (js "staff") lookup) ∧
      root.data.field field = .str (js "ada") := by
  have hbo : tupleOf notes (.record (row (js "folder") (js "f1"))) (js "viewers")
      (.record (row (js "staff") (js "bo"))) (js "grant") =
        .ok ⟨⟨js "folder", js "f1"⟩, js "viewers", .entity ⟨js "staff", js "bo"⟩⟩ := by decide
  have hafter : ∀ call ∈ [folderOf (js "bo")], ∀ t ∈ call.gives notes,
      t.subject ≠ .entity ⟨js "staff", js "ada"⟩ := by
    intro call hcall t ht
    obtain rfl := List.mem_singleton.mp hcall
    obtain rfl := Except.ok.inj (hbo.symm.trans ht)
    decide
  have h : canAfter notes 10 ([folderOf (js "ada")] ++
      .deleteEntity ⟨js "staff", js "ada"⟩ :: [folderOf (js "bo")])
      ⟨adaViews.subject, js "edit", adasNote, none⟩ = .ok true := by decide
  exact deleted_by_field notes 10 hafter rfl h

end Janus.Permissions
