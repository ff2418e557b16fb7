import Janus.Permissions.Decides
import Janus.Permissions.Memory
import Janus.Machinery.Asking

/-!
# Permissions/Racing — a check that races with writes

`can()` asks its store one question at a time, and writes fall in between.  Here the walk of `Walk`
is the program that asks: answered at once it is the walk itself (`can_answered`), and answered a
question at a time it answers between two sets of tuples (`can_between`) — `true` only where the
tuples stored at some time during the check derive it, and `false` only where those stored
throughout do not.
-/

namespace Janus.Permissions

open Js Insertion Calls

variable {Ctx : Type}

/-! ## The questions of a check -/

/-- One question a check asks of a relation store. -/
inductive ReadCall where
  | has (tuple : RelationTuple)
  | findSubjectSets (object : Entity) (relation : Str)
  | findEntities (object : Entity) (relation : Str)

@[reducible] def ReadCall.Answer : ReadCall → Type
  | .has _ => Bool
  | .findSubjectSets .. => List SubjectSet
  | .findEntities .. => List Entity

/-- What a store answers. -/
def RelationStore.answer (store : RelationStore) : (c : ReadCall) → Except Failure c.Answer
  | .has tuple => store.has tuple
  | .findSubjectSets object relation => store.findSubjectSets object relation
  | .findEntities object relation => store.findEntities object relation

/-- What the store in memory answers. -/
def MemoryRelations.answer (memory : MemoryRelations) : (c : ReadCall) → c.Answer
  | .has tuple => memory.has tuple
  | .findSubjectSets object relation => memory.findSubjectSets object relation
  | .findEntities object relation => memory.findEntities object relation

/-- The store in memory, as nothing writes it. -/
def MemoryRelations.store (memory : MemoryRelations) : RelationStore where
  has tuple := pure (memory.has tuple)
  findSubjectSets object relation := pure (memory.findSubjectSets object relation)
  findEntities object relation := pure (memory.findEntities object relation)
  findObjects request := pure (memory.findObjects request)

/-- A check, as a program of questions. -/
abbrev Asking := Prog ReadCall ReadCall.Answer Failure

def ask (c : ReadCall) : Asking c.Answer := Prog.perform c

namespace Racing

section Programs

variable (w : Walk Ctx)

/-- The objects an arrow through `relation` reaches from `node`. -/
def targets (type : ResolvedObjectType Ctx) (node : Node) (relation : Str) : Asking (List Node) :=
  match get type.relations relation with
  | none => pure []
  | some (.fromField field subject _) => do
    match ← Prog.done (fieldOf node field (type.name ++ js "." ++ relation)) with
    | none => pure []
    | some id => pure [⟨⟨subject, id⟩, none⟩]
  | some (.stored holders) => do
    let entities : List Entity ← ask (.findEntities node.entity relation)
    pure <| (entities.filter fun e => admits holders (.entity e)).map fun e => ⟨e, none⟩

variable (holds : Node → Str → ℕ → Asking Bool) (subject : Subject)

/-- Whether a tuple names the subject, on a relation that admits it. -/
def direct (holders : List Holder) (node : Node) (name : Str) : Asking Bool :=
  if admits holders subject then ask (.has ⟨node.entity, name, subject⟩) else pure false

/-- Whether `subject` holds a relation on `node`, when it holds names by `holds`. -/
def relation (type : ResolvedObjectType Ctx) (node : Node) (name : Str) (depth : ℕ) :
    Asking Bool :=
  match get type.relations name with
  | none => pure false
  | some (.fromField field subjectType _) => do
    pure (Walk.isNamed subject subjectType
      (← Prog.done (fieldOf node field (type.name ++ js "." ++ name))))
  | some (.stored holders) => do
    if ← direct subject holders node name then pure true
    else
      let sets : List SubjectSet ← ask (.findSubjectSets node.entity name)
      sets.anyM fun set =>
        if admits holders (.set set) then holds ⟨set.toEntity, none⟩ set.relation (depth + 1)
        else pure false

/-- Whether `subject` holds what a rule refers to. -/
def follow (type : ResolvedObjectType Ctx) (node : Node) (depth : ℕ) : RuleRef → Asking Bool
  | .name other => holds node other depth
  | .arrow relation target => do
    (← targets type node relation).anyM fun node => holds node target (depth + 1)

/-- Whether one rule of a permission grants it. -/
def rule (type : ResolvedObjectType Ctx) (node : Node) (name : Str) (depth : ℕ)
    (rule : ResolvedRule Ctx) : Asking Bool := do
  if !(← Prog.done (w.tested rule type name)) then pure false
  else follow holds type node depth rule.ref

/-- Whether `subject` holds a permission on `node`, when it holds names by `holds`. -/
def permission (type : ResolvedObjectType Ctx) (node : Node) (name : Str) (depth : ℕ) :
    Asking Bool :=
  ((get type.permissions name).getD []).anyM (rule w holds type node name depth)

end Programs

/-- Whether `subject` holds `name` — a relation or a permission — on `node`. -/
def holds (w : Walk Ctx) (subject : Subject) : ℕ → List Str → Node → Str → ℕ → Asking Bool
  | 0, _, _, _, _ => Prog.fail .outOfFuel
  | fuel + 1, path, node, name, depth =>
    if w.maxDepth < depth then
      Prog.fail <| .permissionDepth (js "can: checking " ++ w.question ++
        js " crossed more than " ++ js (toString w.maxDepth) ++ js " relations without an answer")
        w.question w.maxDepth
    else
      let key := nodeKey node.entity name
      if key ∈ path then pure false
      else
        match get w.model.types node.entity.type with
        | none => pure false
        | some type =>
          let inner := holds w subject fuel (key :: path)
          if (get type.permissions name).isSome then permission w inner type node name depth
          else relation inner subject type node name depth

/-- What a caller asks `can()`. -/
structure Check (Ctx : Type) where
  subject : Arg
  permission : Str
  object : Arg
  ctx : Option Ctx

/-- `can()`, as the questions it asks of the store. -/
def can (bound : BoundModel Ctx) (check : Check Ctx) : Asking Bool :=
  if isAnonymous check.subject then pure false
  else do
    let root ← Prog.done (objectOf bound.model check.object (js "can"))
    let type ← Prog.done (typeOf bound.model root.type (js "can"))
    if !type.declares check.permission then
      Prog.fail <| .typeError <| js "can: \"" ++ check.permission ++
        js "\" is not a relation or a permission of " ++ type.name
    else do
      let who ← Prog.done (subjectOf bound.model check.subject (js "can"))
      if !isStorable root.id || !isStorable who.id then pure false
      else
        let walk : Walk Ctx := ⟨bound.model, bound.store, bound.maxDepth, check.ctx,
          type.name ++ js "#" ++ check.permission⟩
        holds walk who (walkFuel bound.model bound.maxDepth) []
          ⟨⟨root.type, root.id⟩, some root.data⟩ check.permission 0

/-! ## Answered at once -/

section Answered

variable {w : Walk Ctx}

theorem targets_answered (type : ResolvedObjectType Ctx) (node : Node) (relation : Str) :
    (targets type node relation).answered w.store.answer = w.targets type node relation := by
  rw [targets, Walk.targets]
  cases get type.relations relation with
  | none => rfl
  | some r =>
    cases r with
    | fromField field subject lookup =>
      refine (Prog.answered_bind ..).trans (bind_congr fun id => ?_)
      cases id <;> rfl
    | stored holders =>
      refine (Prog.answered_bind ..).trans ?_
      rw [ask, Prog.answered_perform]
      rfl

theorem direct_answered (subject : Subject) (holders : List Holder) (node : Node) (name : Str) :
    (direct subject holders node name).answered w.store.answer =
      w.direct subject holders node name := by
  rw [direct, Walk.direct]
  split
  · rw [ask, Prog.answered_perform]
    rfl
  · rfl

variable {inner : Node → Str → ℕ → Asking Bool} {inner' : Node → Str → ℕ → Except Failure Bool}

theorem relation_answered
    (hinner : ∀ node name depth, (inner node name depth).answered w.store.answer =
      inner' node name depth) (subject : Subject) (type : ResolvedObjectType Ctx) (node : Node)
    (name : Str) (depth : ℕ) :
    (relation inner subject type node name depth).answered w.store.answer =
      w.relation inner' subject type node name depth := by
  rw [relation, Walk.relation]
  cases get type.relations name with
  | none => rfl
  | some r =>
    cases r with
    | fromField field subjectType lookup => exact Prog.answered_bind ..
    | stored holders =>
      refine (Prog.answered_bind ..).trans ?_
      rw [direct_answered]
      refine bind_congr fun b => ?_
      cases b with
      | true => rfl
      | false =>
        refine (Prog.answered_bind ..).trans ?_
        rw [ask, Prog.answered_perform]
        refine bind_congr fun sets => ?_
        rw [Prog.answered_anyM]
        refine List.anyM_congr fun s _ => ?_
        split
        · exact hinner ..
        · rfl

theorem permission_answered
    (hinner : ∀ node name depth, (inner node name depth).answered w.store.answer =
      inner' node name depth) (type : ResolvedObjectType Ctx) (node : Node) (name : Str)
    (depth : ℕ) :
    (permission w inner type node name depth).answered w.store.answer =
      w.permission inner' type node name depth := by
  rw [permission, Walk.permission, Prog.answered_anyM]
  refine List.anyM_congr fun r _ => ?_
  rw [rule, Walk.rule, Prog.answered_bind, Prog.answered_done]
  refine bind_congr fun passed => ?_
  cases passed with
  | false => rfl
  | true =>
    cases hr : r.ref with
    | name other =>
      simp only [Bool.not_true, Bool.false_eq_true, if_false]
      exact hinner ..
    | arrow through target =>
      simp only [Bool.not_true, Bool.false_eq_true, if_false]
      rw [follow, Walk.follow, Prog.answered_bind, targets_answered]
      refine bind_congr fun nodes => ?_
      rw [Prog.answered_anyM]
      exact List.anyM_congr fun node _ => hinner ..

theorem holds_answered (subject : Subject) (fuel : ℕ) (path : List Str) (node : Node) (name : Str)
    (depth : ℕ) :
    (holds w subject fuel path node name depth).answered w.store.answer =
      w.holds subject fuel path node name depth := by
  induction fuel generalizing path node name depth with
  | zero => rfl
  | succ fuel ih =>
    rw [holds, Walk.holds]
    split
    · rfl
    dsimp only
    split
    · rfl
    cases get w.model.types node.entity.type with
    | none => rfl
    | some type =>
      dsimp only
      split
      · exact permission_answered (fun _ _ _ => ih ..) ..
      · exact relation_answered (fun _ _ _ => ih ..) ..

/-- **Answered at once, the program is `can()`.** -/
theorem can_answered (bound : BoundModel Ctx) (check : Check Ctx) :
    (can bound check).answered bound.store.answer =
      Permissions.can bound check.subject check.permission check.object check.ctx := by
  rw [can, Permissions.can]
  split
  · rfl
  rw [Prog.answered_bind, Prog.answered_done]
  refine bind_congr fun root => ?_
  rw [Prog.answered_bind, Prog.answered_done]
  refine bind_congr fun type => ?_
  split
  · rfl
  rw [Prog.answered_bind, Prog.answered_done]
  refine bind_congr fun who => ?_
  split
  · rfl
  · exact holds_answered (w := ⟨bound.model, bound.store, bound.maxDepth, check.ctx, _⟩) ..

end Answered

end Racing

/-! ## Answered a question at a time -/

/-- A tuple a check may ask for: every part but the object's id is as a store is given it. -/
structure RelationTuple.Askable (t : RelationTuple) : Prop where
  objectType : isName t.object.type = true
  relation : isName t.relation = true
  subject : t.subject.WellFormed

theorem RelationTuple.WellFormed.askable {t : RelationTuple} (h : t.WellFormed) : t.Askable :=
  ⟨h.objectType, h.relation, h.subject⟩

/-- **What a check asks for is read back from its notation too**, from the end: whatever its
object's id holds. -/
theorem formatTuple_inj_askable {a b : RelationTuple} (ha : a.Askable) (hb : b.Askable)
    (h : formatTuple a = formatTuple b) : a = b := by
  have hat : ∀ {t : RelationTuple}, t.Askable → (64 : CodeUnit) ∉ formatSubject t.subject := by
    intro t ht
    have hentity : (64 : CodeUnit) ∉ formatEntity ⟨t.subject.type, t.subject.id⟩ := by
      rw [formatEntity, List.mem_append, List.mem_cons]
      rintro (hm | hm | hm)
      · exact (isName_notMem ht.subject.type).2.2 hm
      · exact absurd hm (by decide)
      · exact (isId_notMem ht.subject.id).2 hm
    cases hsubject : t.subject with
    | entity e =>
      rw [hsubject] at hentity
      exact hentity
    | set s =>
      rw [hsubject] at hentity
      rw [formatSubject, List.mem_append, List.mem_cons]
      rintro (hm | hm | hm)
      · exact hentity hm
      · exact absurd hm (by decide)
      · exact (isName_notMem (ht.subject.relation s hsubject)).2.2 hm
  have hassoc : ∀ t : RelationTuple, formatTuple t = (formatEntity t.object ++
      (35 : CodeUnit) :: t.relation) ++ (64 : CodeUnit) :: formatSubject t.subject := fun t => by
    rw [formatTuple, List.append_assoc, List.cons_append]
  rw [hassoc, hassoc] at h
  obtain ⟨hleft, hsubject⟩ := append_cons_inj' (hat ha) (hat hb) h
  obtain ⟨hobject, hrelation⟩ := append_cons_inj' (isName_notMem ha.relation).2.1
    (isName_notMem hb.relation).2.1 hleft
  have hobject := (formatEntity_inj ha.objectType hb.objectType).mp hobject
  have hsubject := formatSubject_inj ha.subject hb.subject hsubject
  cases a
  cases b
  simp_all

/-- **Nothing is answered that is not in `ever`, and nothing of `throughout` is left out.** -/
def Between (ever throughout : List RelationTuple) : (c : ReadCall) → c.Answer → Prop
  | .has t, b => t.Askable → (b = true → t ∈ ever) ∧ (t ∈ throughout → b = true)
  | .findSubjectSets object relation, sets => ∀ s,
    (s ∈ sets → ⟨object, relation, .set s⟩ ∈ ever) ∧
      (⟨object, relation, .set s⟩ ∈ throughout → s ∈ sets)
  | .findEntities object relation, entities => ∀ e,
    (e ∈ entities → ⟨object, relation, .entity e⟩ ∈ ever) ∧
      (⟨object, relation, .entity e⟩ ∈ throughout → e ∈ entities)

/-- **The store in memory answers between** any tuples it is among. -/
theorem Represents.between {memory : MemoryRelations} {tuples : Set RelationTuple}
    (h : Represents memory tuples) {ever throughout : List RelationTuple}
    (hever : memory.values ⊆ ever) (hthroughout : throughout ⊆ memory.values) (c : ReadCall) :
    Between ever throughout c (memory.answer c) := by
  cases c with
  | has t =>
    intro ht
    refine ⟨fun hb => ?_, fun hm => ?_⟩
    · obtain ⟨stored, hget⟩ := Option.isSome_iff_exists.mp hb
      have hstored : stored ∈ memory.values := List.mem_map.mpr ⟨_, mem_of_get hget, rfl⟩
      have heq := formatTuple_inj_askable ht (h.wellFormed (h.mem_values.mp hstored)).askable
        (h.keyed hget)
      exact heq ▸ hever hstored
    · exact Option.isSome_iff_exists.mpr ⟨t, h.mem.mp (h.mem_values.mp (hthroughout hm))⟩
  | findSubjectSets object relation =>
    refine fun s => ⟨fun hs => ?_, fun hm => ?_⟩
    · exact hever (h.mem_values.mpr (h.mem_findSubjectSets.mp hs))
    · exact h.mem_findSubjectSets.mpr (h.mem_values.mp (hthroughout hm))
  | findEntities object relation =>
    refine fun e => ⟨fun he => ?_, fun hm => ?_⟩
    · exact hever (h.mem_values.mpr (h.mem_findEntities.mp he))
    · exact h.mem_findEntities.mpr (h.mem_values.mp (hthroughout hm))

/-- The same situation over other tuples. -/
def Situation.over (q : Situation Ctx) (tuples : List RelationTuple) : Situation Ctx :=
  { q with tuples := tuples }

namespace Racing

section Steps

variable {w : Walk Ctx} {q : Situation Ctx} {ever throughout : List RelationTuple}
  {type : ResolvedObjectType Ctx} {node : Node} {name : Str} {depth : ℕ}

theorem relationOf_over (ht : get q.model.types node.entity.type = some type)
    {tuples : List RelationTuple} {r : ResolvedRelation} :
    RelationOf (q.over tuples) node.entity name r ↔ get type.relations name = some r := by
  simp [RelationOf, Situation.over, ht]

theorem rulesOf_over (ht : get q.model.types node.entity.type = some type)
    {tuples : List RelationTuple} {rules : List (ResolvedRule Ctx)} :
    RulesOf (q.over tuples) node.entity name rules ↔
      get type.permissions name = some rules := by
  simp [RulesOf, Situation.over, ht]

theorem targets_between (ht : get q.model.types node.entity.type = some type)
    (hn : node.Agrees q) :
    Always (Between ever throughout)
      (fun nodes => (∀ n ∈ nodes, n.data = none ∧
          Related (q.over ever) node.entity name n.entity) ∧
        ∀ e, Related (q.over throughout) node.entity name e → ⟨e, none⟩ ∈ nodes)
      (targets type node name) := by
  rw [targets]
  split
  case h_1 hnone =>
    refine .pure ⟨by simp, fun e h => ?_⟩
    cases h with
    | tuple h _ _ => exact absurd ((relationOf_over ht).mp h) (by simp [hnone])
    | field h _ => exact absurd ((relationOf_over ht).mp h) (by simp [hnone])
  case h_2 field subject lookup hsome =>
    refine .bind (.done fun id hid => ?_)
    have hcarries := fieldOf_ok hn hid
    have hrelated : ∀ e, Related (q.over throughout) node.entity name e →
        ∃ i, id = some i ∧ e = ⟨subject, i⟩ := by
      intro e h
      cases h with
      | tuple h _ _ => exact absurd ((relationOf_over ht).mp h) (by simp [hsome])
      | field h hc =>
        obtain ⟨rfl, rfl, rfl⟩ : _ ∧ _ ∧ _ := by simpa [hsome] using (relationOf_over ht).mp h
        exact ⟨_, (hcarries _).mpr hc, rfl⟩
    cases id with
    | none =>
      refine .pure ⟨by simp, fun e h => ?_⟩
      obtain ⟨_, hi, _⟩ := hrelated e h
      cases hi
    | some i =>
      refine .pure ⟨fun n hm => ?_, fun e h => ?_⟩
      · obtain rfl := List.mem_singleton.mp hm
        exact ⟨rfl, .field ((relationOf_over ht).mpr hsome) ((hcarries i).mp rfl)⟩
      · obtain ⟨_, hi, rfl⟩ := hrelated e h
        cases hi
        exact List.mem_singleton_self _
  case h_3 holders hsome =>
    refine .bind (.perform fun entities hentities => .pure ⟨fun n hm => ?_, fun e h => ?_⟩)
    · obtain ⟨e, he, rfl⟩ := List.mem_map.mp hm
      obtain ⟨he, ha⟩ := List.mem_filter.mp he
      exact ⟨rfl, .tuple ((relationOf_over ht).mpr hsome) ha ((hentities e).1 he)⟩
    · cases h with
      | tuple h ha hin =>
        obtain rfl : holders = _ := by simpa [hsome] using (relationOf_over ht).mp h
        exact List.mem_map.mpr ⟨e, List.mem_filter.mpr ⟨(hentities e).2 hin, ha⟩, rfl⟩
      | field h _ => exact absurd ((relationOf_over ht).mp h) (by simp [hsome])

/-- One step, where `T` says what is answered of the goals it leads to. -/
def Stepped (q : Situation Ctx) (ever throughout : List RelationTuple) (T : Goal → Bool → Prop)
    (a : Goal) (b : Bool) : Prop :=
  (b = true → Base (q.over ever) a ∨ ∃ a', Edge (q.over ever) a a' ∧ T a' true) ∧
  (b = false → ¬ Base (q.over throughout) a ∧ ∀ a', Edge (q.over throughout) a a' → T a' false)

variable {inner : Node → Str → ℕ → Asking Bool} {T : Goal → Bool → Prop}

theorem relation_between (ht : get q.model.types node.entity.type = some type)
    (hp : get type.permissions name = none) (hn : node.Agrees q) (hwho : q.subject.WellFormed)
    (hinner : ∀ node name depth, node.Agrees q →
      Always (Between ever throughout) (T (node.entity, name)) (inner node name depth)) :
    Always (Between ever throughout) (Stepped q ever throughout T (node.entity, name))
      (relation inner q.subject type node name depth) := by
  have hrules : ∀ {rules}, ¬ RulesOf (q.over throughout) node.entity name rules := fun h => by
    simpa [hp] using (rulesOf_over ht).mp h
  have hnone : ∀ a', (∀ r, get type.relations name ≠ some r) →
      ¬ Edge (q.over throughout) (node.entity, name) a' := by
    intro a' hno h
    cases h with
    | set h _ _ => exact hno _ ((relationOf_over ht).mp h)
    | name h _ _ _ => exact hrules h
    | arrow h _ _ _ _ => exact hrules h
  rw [relation]
  split
  case h_1 hr =>
    refine .pure ⟨fun h => absurd h Bool.false_ne_true, fun _ => ⟨fun h => ?_, fun a' h => ?_⟩⟩
    · cases h with
      | tuple h _ _ => exact absurd ((relationOf_over ht).mp h) (by simp [hr])
      | field h _ _ => exact absurd ((relationOf_over ht).mp h) (by simp [hr])
    · exact absurd h (hnone a' (by simp [hr]))
  case h_2 field subjectType lookup hr =>
    refine .bind (.done fun id hid => .pure ⟨fun h => ?_, fun h => ⟨fun hb => ?_, fun a' he => ?_⟩⟩)
    · obtain ⟨i, hi, hs⟩ := isNamed_iff.mp h
      exact Or.inl (.field ((relationOf_over ht).mpr hr) ((fieldOf_ok hn hid i).mp hi) hs)
    · cases hb with
      | tuple h' _ _ => exact absurd ((relationOf_over ht).mp h') (by simp [hr])
      | field h' hc hs =>
        obtain ⟨rfl, rfl, rfl⟩ : _ ∧ _ ∧ _ := by simpa [hr] using (relationOf_over ht).mp h'
        exact absurd (isNamed_iff.mpr ⟨_, (fieldOf_ok hn hid _).mpr hc, hs⟩) (by
          rw [show (q.over throughout).subject = q.subject from rfl, h]
          exact Bool.false_ne_true)
    · cases he with
      | set h' _ _ => exact absurd ((relationOf_over ht).mp h') (by simp [hr])
      | name h' _ _ _ => exact absurd h' hrules
      | arrow h' _ _ _ _ => exact absurd h' hrules
  case h_3 holders hr =>
    have haskable : RelationTuple.Askable ⟨node.entity, name, q.subject⟩ := by
      have hentry := mem_of_get ht
      exact ⟨q.model.checked.type_isName _ hentry,
        q.model.checked.relation_isName _ hentry _ (mem_of_get hr), hwho⟩
    have hdirect : Always (Between ever throughout)
        (fun b => (b = true → admits holders q.subject = true ∧
            ⟨node.entity, name, q.subject⟩ ∈ ever) ∧
          (admits holders q.subject = true → ⟨node.entity, name, q.subject⟩ ∈ throughout →
            b = true)) (direct q.subject holders node name) := by
      rw [direct]
      split
      case isTrue ha =>
        exact .perform fun b hb => ⟨fun h => ⟨ha, (hb haskable).1 h⟩, fun _ => (hb haskable).2⟩
      case isFalse ha => exact .pure ⟨fun h => absurd h Bool.false_ne_true, fun h => absurd h ha⟩
    refine .bind (hdirect.mono fun found hfound => ?_)
    cases found with
    | true =>
      obtain ⟨ha, hin⟩ := hfound.1 rfl
      exact .pure ⟨fun _ => Or.inl (.tuple ((relationOf_over ht).mpr hr) ha hin),
        fun h => absurd h.symm Bool.false_ne_true⟩
    | false =>
      refine .bind (.perform fun sets hsets => ?_)
      have heach : ∀ s ∈ sets, Always (Between ever throughout)
          (fun b => (b = true → admits holders (.set s) = true ∧ T (s.toEntity, s.relation) true) ∧
            (b = false → admits holders (.set s) = true → T (s.toEntity, s.relation) false))
          (if admits holders (.set s) then inner ⟨s.toEntity, none⟩ s.relation (depth + 1)
            else pure false) := by
        intro s _
        split
        case isTrue ha =>
          refine (hinner ⟨s.toEntity, none⟩ s.relation (depth + 1) (agrees_none _)).mono ?_
          exact fun b hb => ⟨fun h => ⟨ha, h ▸ hb⟩, fun h _ => h ▸ hb⟩
        case isFalse ha =>
          exact .pure ⟨fun h => absurd h Bool.false_ne_true, fun _ h => absurd h ha⟩
      refine (Always.anyM heach).mono fun b hb => ⟨fun h => ?_, fun h => ⟨fun hbase => ?_,
        fun a' he => ?_⟩⟩
      · obtain ⟨s, hs, hT⟩ := hb.1 h
        obtain ⟨ha, hT⟩ := hT.1 rfl
        exact Or.inr ⟨_, .set ((relationOf_over ht).mpr hr) ha ((hsets s).1 hs), hT⟩
      · cases hbase with
        | tuple h' ha hin =>
          obtain rfl : holders = _ := by simpa [hr] using (relationOf_over ht).mp h'
          exact absurd (hfound.2 ha hin) Bool.false_ne_true
        | field h' _ _ => exact absurd ((relationOf_over ht).mp h') (by simp [hr])
      · cases he with
        | set h' ha hin =>
          obtain rfl : holders = _ := by simpa [hr] using (relationOf_over ht).mp h'
          exact (hb.2 h _ ((hsets _).2 hin)).2 rfl ha
        | name h' _ _ _ => exact absurd h' hrules
        | arrow h' _ _ _ _ => exact absurd h' hrules

theorem permission_between (hctx : q.ctx = w.ctx)
    (ht : get q.model.types node.entity.type = some type)
    (hp : (get type.permissions name).isSome) (hn : node.Agrees q)
    (hinner : ∀ node name depth, node.Agrees q →
      Always (Between ever throughout) (T (node.entity, name)) (inner node name depth)) :
    Always (Between ever throughout) (Stepped q ever throughout T (node.entity, name))
      (permission w inner type node name depth) := by
  obtain ⟨rules, hrules⟩ := Option.isSome_iff_exists.mp hp
  have hof : ∀ {tuples}, RulesOf (q.over tuples) node.entity name rules :=
    (rulesOf_over ht).mpr hrules
  have hrel : ∀ {r}, ¬ RelationOf (q.over throughout) node.entity name r := by
    intro r h
    have := not_both (q.over throughout) (e := node.entity) ht ((relationOf_over ht).mp h)
    rw [hrules] at this
    cases this
  -- What one rule answers, by what it refers to.
  have heach : ∀ r ∈ rules, Always (Between ever throughout)
      (fun b => (b = true → ∃ a', Edge (q.over ever) (node.entity, name) a' ∧ T a' true) ∧
        (b = false → Grants q r →
          (∀ other, r.ref = .name other → T (node.entity, other) false) ∧
          ∀ through target e, r.ref = .arrow through target →
            Related (q.over throughout) node.entity through e → T (e, target) false))
      (rule w inner type node name depth r) := by
    intro r hr
    rw [rule]
    refine .bind (.done fun passed hpassed => ?_)
    have hgrants : passed = true ↔ Grants q r := tested_ok
      (w := { w with store := ofTuples q.tuples, model := q.model })
      ⟨rfl, hctx, ofTuples_keeps _⟩ hpassed
    cases passed with
    | false =>
      exact .pure ⟨fun h => absurd h Bool.false_ne_true,
        fun _ hg => absurd (hgrants.mpr hg) Bool.false_ne_true⟩
    | true =>
      have hg := hgrants.mp rfl
      simp only [Bool.not_true, Bool.false_eq_true, if_false]
      cases href : r.ref with
      | name other =>
        refine (hinner node other depth hn).mono fun b hb => ⟨fun h => ?_, fun h _ => ⟨?_, ?_⟩⟩
        · exact ⟨_, .name hof hr hg href, h ▸ hb⟩
        · rintro _ ⟨⟩
          exact h ▸ hb
        · rintro _ _ _ ⟨⟩
      | arrow through target =>
        rw [follow]
        refine .bind ((targets_between ht hn).mono fun nodes hnodes => ?_)
        have hinner : ∀ n ∈ nodes, Always (Between ever throughout) (T (n.entity, target))
            (inner n target (depth + 1)) := fun n hm => hinner n target (depth + 1) (by
          rw [Node.Agrees, (hnodes.1 n hm).1]
          simp)
        refine (Always.anyM hinner).mono fun b hb => ⟨fun h => ?_, fun h _ => ⟨?_, ?_⟩⟩
        · obtain ⟨n, hm, hT⟩ := hb.1 h
          exact ⟨_, .arrow hof hr hg href (hnodes.1 n hm).2, hT⟩
        · rintro _ ⟨⟩
        · rintro _ _ e ⟨⟩ hrelated
          exact hb.2 h _ (hnodes.2 e hrelated)
  rw [permission, hrules, Option.getD_some]
  refine (Always.anyM heach).mono fun b hb => ⟨fun h => ?_, fun h => ⟨fun hbase => ?_,
    fun a' he => ?_⟩⟩
  · obtain ⟨_, _, hT⟩ := hb.1 h
    exact Or.inr (hT.1 rfl)
  · cases hbase with
    | tuple h' _ _ => exact hrel h'
    | field h' _ _ => exact hrel h'
  · cases he with
    | set h' _ _ => exact absurd h' hrel
    | name h' hm hg href =>
      obtain rfl : rules = _ := by simpa [hrules] using (rulesOf_over ht).mp h'
      exact ((hb.2 h _ hm).2 rfl hg).1 _ href
    | arrow h' hm hg href hrelated =>
      obtain rfl : rules = _ := by simpa [hrules] using (rulesOf_over ht).mp h'
      exact ((hb.2 h _ hm).2 rfl hg).2 _ _ _ href hrelated

/-- **The walk decides between**: `true` is derived from what was ever stored, and `false` has no
derivation off its path from what was stored throughout. -/
theorem holds_between (hmodel : q.model = w.model) (hctx : q.ctx = w.ctx)
    (hwho : q.subject.WellFormed) {fuel : ℕ} {goals : List Goal} (hn : node.Agrees q) :
    Always (Between ever throughout)
      (fun b => (b = true → Cut.Derives (Base (q.over ever)) (Edge (q.over ever))
          (node.entity, name)) ∧
        (b = false → (∀ a ∈ goals, Declared q a) → ¬ Cut.Avoiding (Base (q.over throughout))
          (Edge (q.over throughout)) goals (node.entity, name)))
      (holds w q.subject fuel (goals.map fun a => nodeKey a.1 a.2) node name depth) := by
  induction fuel generalizing goals node name depth with
  | zero => exact .fail
  | succ fuel ih =>
    have hdeclared : ∀ {path}, Cut.Avoiding (Base (q.over throughout))
        (Edge (q.over throughout)) path (node.entity, name) → Declared q (node.entity, name) := by
      intro path hav
      cases hav with
      | base _ hb => exact hb.declared
      | step _ he _ => exact he.declared
    rw [holds]
    split
    · exact .fail
    dsimp only
    split
    case isTrue hpath =>
      refine .pure ⟨fun h => absurd h Bool.false_ne_true, fun _ hgoals hav => ?_⟩
      obtain ⟨a, ha, hkey⟩ := List.mem_map.mp hpath
      obtain rfl := nodeKey_declared q (hgoals a ha) (hdeclared hav) hkey
      exact hav.notMem ha
    split
    case h_1 hnone =>
      refine .pure ⟨fun h => absurd h Bool.false_ne_true, fun _ _ hav => ?_⟩
      obtain ⟨type, ht, _⟩ := hdeclared hav
      rw [hmodel, hnone] at ht
      cases ht
    case h_2 type ht =>
      rw [← hmodel] at ht
      -- The goal joins the path of whatever its step leads to.
      have hfinish : ∀ b, Stepped q ever throughout (fun a b =>
          (b = true → Cut.Derives (Base (q.over ever)) (Edge (q.over ever)) a) ∧
          (b = false → (∀ a ∈ (node.entity, name) :: goals, Declared q a) →
            ¬ Cut.Avoiding (Base (q.over throughout)) (Edge (q.over throughout))
              ((node.entity, name) :: goals) a)) (node.entity, name) b →
          (b = true → Cut.Derives (Base (q.over ever)) (Edge (q.over ever)) (node.entity, name)) ∧
          (b = false → (∀ a ∈ goals, Declared q a) → ¬ Cut.Avoiding (Base (q.over throughout))
            (Edge (q.over throughout)) goals (node.entity, name)) := by
        refine fun b hb => ⟨fun h => ?_, fun h hgoals hav => ?_⟩
        · obtain hbase | ⟨a', he, hT⟩ := hb.1 h
          · exact .base hbase
          · exact .step he (hT.1 rfl)
        · have hdecl := hdeclared hav
          cases hav with
          | base _ hbase => exact (hb.2 h).1 hbase
          | step _ he hav =>
            exact ((hb.2 h).2 _ he).2 rfl (List.forall_mem_cons.mpr ⟨hdecl, hgoals⟩) hav
      split
      case isTrue hp => exact (permission_between hctx ht hp hn fun _ _ _ hn => ih hn).mono hfinish
      case isFalse hp =>
        exact (relation_between ht (by simpa using hp) hn hwho fun _ _ _ hn => ih hn).mono hfinish

/-- …and from the start, whatever it was cut at. -/
theorem holds_decides (hmodel : q.model = w.model) (hctx : q.ctx = w.ctx)
    (hwho : q.subject.WellFormed) {fuel : ℕ} (hn : node.Agrees q) :
    Always (Between ever throughout)
      (fun b => (b = true → Holds (q.over ever) node.entity name) ∧
        (b = false → ¬ Holds (q.over throughout) node.entity name))
      (holds w q.subject fuel [] node name depth) := by
  have hwalk : Always (Between ever throughout) _ (holds w q.subject fuel
      (([] : List Goal).map fun a => nodeKey a.1 a.2) node name depth) :=
    holds_between hmodel hctx hwho hn
  refine hwalk.mono fun b hb => ⟨fun h => (holds_iff_derives _).mpr (hb.1 h), fun h hholds => ?_⟩
  exact hb.2 h (by simp) (Cut.derives_iff_avoiding.mp ((holds_iff_derives _).mp hholds))

end Steps

/-! ### A check ends -/

/-- A program that, whatever it is answered, never runs out of calls. -/
abbrev Ends {α : Type} (x : Asking α) : Prop := Only (fun _ => True) (· ≠ .outOfFuel) x

theorem ends_of_ne {α : Type} {r : Except Failure α} (h : r ≠ .error .outOfFuel) :
    ∀ e, r = .error e → e ≠ .outOfFuel := by
  rintro _ rfl rfl
  exact h rfl

section Ends

variable {w : Walk Ctx} {inner : Node → Str → ℕ → Asking Bool} {type : ResolvedObjectType Ctx}
  {node : Node} {name : Str} {depth : ℕ}

theorem ends_targets : Ends (targets type node name) := by
  rw [targets]
  split
  · exact .pure
  · refine .done_bind (ends_of_ne fieldOf_ne) fun id _ => ?_
    cases id <;> exact .pure
  · exact .bind (.perform trivial) fun _ => .pure

theorem ends_relation {subject : Subject}
    (hdeeper : ∀ node name, Ends (inner node name (depth + 1))) :
    Ends (relation inner subject type node name depth) := by
  rw [relation]
  split
  · exact .pure
  · exact .done_bind (ends_of_ne fieldOf_ne) fun _ _ => .pure
  · refine .bind ?_ fun found => ?_
    · rw [direct]
      split
      · exact .perform trivial
      · exact .pure
    cases found with
    | true => exact .pure
    | false =>
      refine .bind (.perform trivial) fun sets => .anyM fun s _ => ?_
      split
      · exact hdeeper ..
      · exact .pure

theorem ends_permission (hw : Terminating w.model w.store)
    (ht : get w.model.types node.entity.type = some type)
    (hsame : ∀ other, Ends (inner node other depth))
    (hdeeper : ∀ node name, Ends (inner node name (depth + 1))) :
    Ends (permission w inner type node name depth) := by
  refine .anyM fun r hr => .done_bind (ends_of_ne fun h => ?_) fun passed _ => ?_
  · rw [Walk.tested] at h
    split at h
    case h_1 test htest =>
      rw [Walk.passes] at h
      split at h
      · obtain ⟨rules, hrules⟩ : ∃ rules, get type.permissions name = some rules := by
          cases hg : get type.permissions name with
          | none => simp [hg] at hr
          | some rules => exact ⟨rules, rfl⟩
        exact hw.test ht hrules (by simpa [hrules] using hr) htest h
      · cases h
    case h_2 => exact Except.pure_error.mp h
  cases passed with
  | false => exact .pure
  | true =>
    cases href : r.ref with
    | name other => exact hsame other
    | arrow through target => exact .bind ends_targets fun nodes => .anyM fun _ _ => hdeeper ..

/-- **The walk ends**, however it is answered: between two relations crossed, each call is one more
permission of the same object on the path. -/
theorem ends_holds (hw : Terminating w.model w.store) {subject : Subject} {fuel : ℕ}
    {path : List Str}
    (hfuel : (w.maxDepth + 1 - depth) * (mostPermissions w.model + 2) +
      (permissionNames w.model node.entity).countP (fun n => decide (nodeKey node.entity n ∉ path))
        < fuel) :
    Ends (holds w subject fuel path node name depth) := by
  induction fuel generalizing path node name depth with
  | zero => omega
  | succ fuel ih =>
    rw [holds]
    split
    · exact .fail (by simp)
    dsimp only
    split
    · exact .pure
    case isFalse hdepth hpath =>
    split
    · exact .pure
    case h_2 type ht =>
    -- A relation crossed leaves a whole level of fuel.
    have hdeeper : ∀ node' name', Ends (holds w subject fuel
        (nodeKey node.entity name :: path) node' name' (depth + 1)) := by
      intro node' name'
      refine ih ?_
      have hle : (permissionNames w.model node'.entity).countP
          (fun n => decide (nodeKey node'.entity n ∉ nodeKey node.entity name :: path)) ≤
          mostPermissions w.model :=
        List.countP_le_length.trans (length_permissionNames_le ..)
      have hlevel : w.maxDepth + 1 - depth = (w.maxDepth + 1 - (depth + 1)) + 1 := by omega
      rw [hlevel, Nat.succ_mul] at hfuel
      omega
    split
    case isTrue hp =>
      refine ends_permission hw ht (fun other => ih ?_) hdeeper
      have hmem : name ∈ permissionNames w.model node.entity := by
        obtain ⟨rules, hr⟩ := Option.isSome_iff_exists.mp hp
        rw [permissionNames, ht]
        exact List.mem_map.mpr ⟨_, mem_of_get hr, rfl⟩
      have hlt : (permissionNames w.model node.entity).countP
          (fun n => decide (nodeKey node.entity n ∉ nodeKey node.entity name :: path)) <
          (permissionNames w.model node.entity).countP
            (fun n => decide (nodeKey node.entity n ∉ path)) :=
        List.countP_lt_countP (a := name) (by simp) hmem (by simpa using hpath) (by simp)
      omega
    case isFalse => exact ends_relation hdeeper

/-- The calls `can()` gives its walk are enough. -/
theorem ends_can {bound : BoundModel Ctx} (hb : Terminating bound.model bound.store)
    (check : Check Ctx) : Ends (can bound check) := by
  rw [can]
  split
  · exact .pure
  refine .done_bind (ends_of_ne fun h => ?_) fun root _ =>
    .done_bind (ends_of_ne fun h => ?_) fun type _ => ?_
  · obtain ⟨_, ⟨⟩⟩ := objectOf_error h
  · obtain ⟨_, ⟨⟩⟩ := typeOf_error h
  split
  · exact .fail (by simp)
  refine .done_bind (ends_of_ne fun h => ?_) fun who _ => ?_
  · obtain ⟨_, ⟨⟩⟩ := subjectOf_error h
  split
  · exact .pure
  · refine ends_holds hb ?_
    have hlevel : walkFuel bound.model bound.maxDepth =
        (bound.maxDepth + 1 - 0) * (mostPermissions bound.model + 2) +
          (mostPermissions bound.model + 2) := Nat.succ_mul ..
    rw [hlevel]
    exact Nat.add_lt_add_left (Nat.lt_of_le_of_lt (List.countP_le_length.trans
      (length_permissionNames_le ..)) (Nat.lt_add_of_pos_right Nat.two_pos)) _

end Ends

/-! ## Checks among writes -/

/-- **What the model entitles a subject to**, by a derivation from these tuples: a subject and an
object that are read, and that a store can keep. -/
def Entitled (model : ResolvedModel Ctx) (check : Check Ctx) (tuples : List RelationTuple) :
    Prop :=
  ∃ root who, objectOf model check.object (js "can") = .ok root ∧
    subjectOf model check.subject (js "can") = .ok who ∧
    isStorable root.id = true ∧ isStorable who.id = true ∧
    Holds ⟨model, tuples, rootFields root, check.ctx, who⟩ ⟨root.type, root.id⟩ check.permission

theorem subjectOf_wellFormed {model : ResolvedModel Ctx} {value : Arg} {where_ : Str}
    {who : Subject} (h : subjectOf model value where_ = .ok who) : who.WellFormed := by
  obtain ⟨r, type, id, -, -, -, hid, hread, htype⟩ := subjectOf_ok h
  refine ⟨?_, ?_, ?_⟩
  · rwa [hread, readAs_type]
  · rwa [hread, readAs_id]
  · rintro s rfl
    exact subjectOf_relation h

theorem can_always (bound : BoundModel Ctx) (check : Check Ctx)
    {ever throughout : List RelationTuple} :
    Always (Between ever throughout)
      (fun b => (b = true → Entitled bound.model check ever) ∧
        (b = false → ¬ Entitled bound.model check throughout)) (can bound check) := by
  rw [can]
  split
  case isTrue hanon =>
    refine .pure ⟨fun h => absurd h Bool.false_ne_true, fun _ hentitled => ?_⟩
    obtain ⟨_, who, _, hwho, _⟩ := hentitled
    exact absurd hanon (by simp [not_anonymous hwho])
  refine .bind (.done fun root hroot => .bind (.done fun type _ => ?_))
  split
  · exact .fail
  refine .bind (.done fun who hwho => ?_)
  split
  case isTrue hun =>
    refine .pure ⟨fun h => absurd h Bool.false_ne_true, fun _ hentitled => ?_⟩
    obtain ⟨root', who', hroot', hwho', hst, hwst, _⟩ := hentitled
    rw [hroot] at hroot'
    rw [hwho] at hwho'
    cases hroot'
    cases hwho'
    simp [hst, hwst] at hun
  case isFalse hst =>
    simp only [Bool.or_eq_true, Bool.not_eq_true', not_or, Bool.not_eq_false] at hst
    let q : Situation Ctx := ⟨bound.model, [], rootFields root, check.ctx, who⟩
    have hn : Node.Agrees q ⟨⟨root.type, root.id⟩, some root.data⟩ := by
      rintro data ⟨⟩
      exact if_pos rfl
    refine (holds_decides (q := q) rfl rfl (subjectOf_wellFormed hwho) hn).mono
      fun b hb => ⟨fun h => ?_, fun h hentitled => ?_⟩
    · exact ⟨root, who, hroot, hwho, hst.1, hst.2, hb.1 h⟩
    · obtain ⟨root', who', hroot', hwho', _, _, hholds⟩ := hentitled
      rw [hroot] at hroot'
      rw [hwho] at hwho'
      cases hroot'
      cases hwho'
      exact hb.2 h hholds

/-- Any number of checks over one store in memory, and the writes of others in between. -/
def checking (bound : BoundModel Ctx) :
    Service ReadCall ReadCall.Answer MemoryRelations Change (Check Ctx) Failure Bool where
  exec c memory := (memory.answer c, memory)
  drift change memory := change.exec memory
  code := can bound

section Runs

variable {bound : BoundModel Ctx} {moves : List (Move Change (Check Ctx))}

/-- The writes among some moves are of tuples the core admits. -/
def AdmittedWrites (moves : List (Move Change (Check Ctx))) : Prop :=
  ∀ change, .drift change ∈ moves → ∀ t ∈ change.tuples, Admitted t

theorem represents_run {tuples : Set RelationTuple}
    {s : Sys ReadCall ReadCall.Answer MemoryRelations (Check Ctx) Failure Bool}
    (hs : Represents s.world tuples) (hmoves : AdmittedWrites moves) :
    ∃ tuples, Represents (moves.foldl (checking bound).move s).world tuples := by
  induction moves generalizing s tuples with
  | nil => exact ⟨tuples, hs⟩
  | cons mv moves ih =>
    have hlater : AdmittedWrites moves := fun change h => hmoves change (List.mem_cons_of_mem _ h)
    cases mv with
    | begin check => exact ih (s := (checking bound).move s (.begin check)) hs hlater
    | drift change =>
      have hchange := fun t ht => (hmoves change List.mem_cons_self t ht).wellFormed
      exact ih (s := (checking bound).move s (.drift change)) (hs.exec hchange) hlater
    | step i =>
      have hworld : Represents ((checking bound).move s (.step i)).world tuples := by
        rw [Service.move]
        split
        · exact hs
        · exact hs
      exact ih hworld hlater

/-- **The store as it is at some time during a check**, from when it begins on. -/
def During (bound : BoundModel Ctx) (before : List (Move Change (Check Ctx))) (check : Check Ctx)
    (after : List (Move Change (Check Ctx))) (memory : MemoryRelations) : Prop :=
  (checking bound).Passes ((checking bound).run [] (before ++ [.begin check])) after memory

/-- **A check that races with writes answers between.**  Whatever checks and writes run beside it,
it ends; when it answers `true`, the tuples stored at some time while it ran entitle its subject,
and when it answers `false`, those stored all the while do not. -/
theorem can_between (hb : Terminating bound.model bound.store)
    {before after : List (Move Change (Check Ctx))} {check : Check Ctx}
    {r : Except Failure Bool} {ever throughout : List RelationTuple}
    (hwrites : AdmittedWrites (before ++ after))
    (hended : ((checking bound).run [] (before ++ .begin check :: after)).threads[
      (before.filterMap Move.flow).length]? = some (check, .done r))
    (hever : ∀ memory, During bound before check after memory → memory.values ⊆ ever)
    (hthroughout : ∀ memory, During bound before check after memory →
      throughout ⊆ memory.values) :
    r ≠ .error .outOfFuel ∧
    (r = .ok true → Entitled bound.model check ever) ∧
    (r = .ok false → ¬ Entitled bound.model check throughout) := by
  have hsplit : (checking bound).run [] (before ++ .begin check :: after) =
      after.foldl (checking bound).move ((checking bound).run [] (before ++ [.begin check])) := by
    rw [← Service.run_append, List.append_assoc]
    rfl
  have hbegan : ((checking bound).run [] (before ++ [.begin check])).threads[
      (before.filterMap Move.flow).length]? = some (check, can bound check) := by
    have hlength := congrArg List.length (Service.map_fst_threads (checking bound) [] before)
    rw [List.length_map] at hlength
    rw [Service.run_append, List.foldl_cons, List.foldl_nil, Service.move, ← hlength]
    exact List.getElem?_concat_length
  rw [hsplit] at hended
  constructor
  · obtain ⟨x, hx, hends⟩ := (checking bound).keeps (P := fun _ _ => True)
      (K := Ends) (fun _ _ h r _ => h.2 r) hbegan (ends_can hb check)
      (fun _ _ _ => trivial)
    rw [hended] at hx
    cases hx
    rintro rfl
    exact hends rfl
  · have hanswers : ∀ memory, During bound before check after memory →
        ∀ c, Between ever throughout c ((checking bound).exec c memory).1 := by
      intro memory hmemory c
      obtain ⟨tuples, hrepresents⟩ : ∃ tuples, Represents memory tuples := by
        obtain ⟨part, hpart, rfl⟩ := hmemory
        rw [Service.run, ← List.foldl_append]
        refine represents_run (s := ⟨[], [], []⟩) .nil fun change h => ?_
        rcases List.mem_append.mp h with h | h
        · rcases List.mem_append.mp h with h | h
          · exact hwrites change (List.mem_append_left _ h)
          · exact absurd h (by simp)
        · exact hwrites change (List.mem_append_right _ (hpart.subset h))
      exact hrepresents.between (hever memory hmemory) (hthroughout memory hmemory) c
    obtain ⟨x, hx, halways⟩ :=
      (checking bound).always hbegan (can_always bound check) hanswers
    rw [hended] at hx
    cases hx
    constructor
    · rintro rfl
      exact halways.1 rfl
    · rintro rfl
      exact halways.2 rfl

end Runs

/-! ### A team changed while a check ran -/

/-- Two teams view the record. -/
def viewingTeams : List RelationTuple := [
  ⟨⟨js "record", js "r1"⟩, js "viewers", .set ⟨⟨js "team", js "t1"⟩, js "members"⟩⟩,
  ⟨⟨js "record", js "r1"⟩, js "viewers", .set ⟨⟨js "team", js "t2"⟩, js "members"⟩⟩]

/-- Ada is a member of this team. -/
def adaIn (team : Str) : RelationTuple :=
  ⟨⟨js "team", team⟩, js "members", .entity ⟨js "staff", js "ada"⟩⟩

/-- May Ada view the record? -/
def adaViews : Check Unit :=
  ⟨.record (row (js "staff") (js "ada")), js "view", .record (row (js "record") (js "r1")), none⟩

/-- Ada is in the second team. -/
def beforeMove : List (Move Change (Check Unit)) :=
  [.drift (.write (viewingTeams ++ [adaIn (js "t2")]) [])]

/-- Her check asks about the first team; one write moves her there from the second; and her check
asks about the second. -/
def whileMoving : List (Move Change (Check Unit)) :=
  [.step 0, .step 0, .step 0, .step 0,
    .drift (.write [adaIn (js "t1")] [adaIn (js "t2")]), .step 0, .step 0]

def clinicBound : BoundModel Unit := ⟨clinic, ofTuples [], 10⟩

theorem clinic_terminating {store : RelationStore} (hstore : Terminates store) :
    Terminating clinic store where
  store := hstore
  test {name type permission rules rule test ctx} ht hr hm htest := by
    have hnone : ∀ e ∈ clinic.types, ∀ p ∈ e.2.permissions, ∀ r ∈ p.2, r.test = none := by
      simp [clinic]
    rw [hnone _ (mem_of_get ht) _ (mem_of_get hr) _ hm] at htest
    cases htest
  lookup {name type relation field subject lookup id} ht hr := by
    have hnone : ∀ e ∈ clinic.types, ∀ r ∈ e.2.relations, ∃ holders, r.2 = .stored holders := by
      simp [clinic]
    obtain ⟨_, h⟩ := hnone _ (mem_of_get ht) _ (mem_of_get hr)
    cases h

theorem entitled_of_can {tuples : List RelationTuple}
    (h : Permissions.can ⟨clinic, ofTuples tuples, 10⟩ adaViews.subject adaViews.permission
      adaViews.object adaViews.ctx = .ok true) : Entitled clinic adaViews tuples := by
  have hroot : objectOf clinic adaViews.object (js "can") =
      .ok ⟨js "record", js "r1", row (js "record") (js "r1")⟩ := objectOf_of rfl rfl rfl rfl
  exact ⟨_, .entity ⟨js "staff", js "ada"⟩, hroot, rfl, rfl, rfl,
    (can_decides (ofTuples_keeps _) hroot rfl rfl rfl h).1.mp rfl⟩

/-- The store at each time of Ada's check. -/
theorem during_whileMoving {p : MemoryRelations → Prop}
    (h : ∀ part ∈ whileMoving.inits, p (part.foldl (checking clinicBound).move
      ((checking clinicBound).run [] (beforeMove ++ [.begin adaViews]))).world)
    {memory : MemoryRelations} (hmemory : During clinicBound beforeMove adaViews whileMoving memory) :
    p memory := by
  obtain ⟨part, hpart, rfl⟩ := hmemory
  exact h part ((List.mem_inits ..).mpr hpart)

theorem admitted_whileMoving : AdmittedWrites (beforeMove ++ whileMoving) := by
  have hteam : ∀ team ∈ [js "t1", js "t2"], Admitted (adaIn team) ∧
      Admitted ⟨⟨js "record", js "r1"⟩, js "viewers", .set ⟨⟨js "team", team⟩, js "members"⟩⟩ := by
    intro team hteam
    refine ⟨⟨Unit, clinic, .record (row (js "team") team), adaViews.subject, js "members",
        js "grant", ?_⟩, ⟨Unit, clinic, adaViews.object, .record (.of [(js "type", .str (js "team")),
        (js "id", .str team), (js "relation", .str (js "members"))] false), js "viewers",
        js "grant", ?_⟩⟩
    all_goals
      revert team
      decide
  obtain ⟨⟨hada₁, hteam₁⟩, hada₂, hteam₂⟩ : (_ ∧ _) ∧ _ ∧ _ := by simpa using hteam
  intro change h
  obtain rfl | rfl : change = .write (viewingTeams ++ [adaIn (js "t2")]) [] ∨
      change = .write [adaIn (js "t1")] [adaIn (js "t2")] := by
    simpa [beforeMove, whileMoving] using h
  · simp [Change.tuples, viewingTeams, hada₂, hteam₁, hteam₂]
  · simp [Change.tuples, hada₁, hada₂]

/-- **No one moment need answer as a check does.**  Ada may view the record at every moment of her
check, and it answers `false`: only what is stored all the while is promised. -/
theorem can_between_moving :
    (∀ memory, During clinicBound beforeMove adaViews whileMoving memory →
      Entitled clinic adaViews memory.values) ∧
    ((checking clinicBound).run [] (beforeMove ++ .begin adaViews :: whileMoving)).threads[0]? =
      some (adaViews, .done (.ok false)) ∧
    ¬ Entitled clinic adaViews viewingTeams := by
  have hended : ((checking clinicBound).run [] (beforeMove ++ .begin adaViews :: whileMoving)).threads[
      (beforeMove.filterMap Move.flow).length]? = some (adaViews, .done (.ok false)) := by
    rfl
  refine ⟨fun memory hmemory => during_whileMoving (p := fun m => Entitled clinic adaViews m.values)
    (fun part hpart => entitled_of_can ?_) hmemory, hended, ?_⟩
  · revert part
    decide
  · have hever : ∀ memory, During clinicBound beforeMove adaViews whileMoving memory →
        memory.values ⊆ viewingTeams ++ [adaIn (js "t1"), adaIn (js "t2")] := fun memory =>
      during_whileMoving (p := fun m => m.values ⊆ _) (by decide)
    have hthroughout : ∀ memory, During clinicBound beforeMove adaViews whileMoving memory →
        viewingTeams ⊆ memory.values := fun memory =>
      during_whileMoving (p := fun m => _ ⊆ m.values) (by decide)
    exact (can_between (clinic_terminating (ofTuples_terminates [])) admitted_whileMoving hended
      hever hthroughout).2.2 rfl

end Racing

end Janus.Permissions
