import Janus.Machinery.Heights
import Janus.Permissions.Agreement

/-!
# Permissions/Depth — how deep `list()` goes where `can()` answers

`can()` counts the relations a path crosses, `list()` the rounds of its fixpoint.  A round may get
no further than one more name of the same objects, and the last one only sees that nothing more is
found: with `D` relations at most to cross and `P` permissions at most of one type, `list()` may
need `(D + 1) * (P + 1)` rounds past the first, and never needs more (`list_depth`).  Of the names
behind the one asked it lists every object, however far: what `can()` answers of the one name bounds
nothing.
-/

namespace Janus.Permissions

open Js Insertion Paging Rounds

variable {Ctx : Type}

/-! ## Heights -/

/-- **What crosses no more than `n` relations has a derivation as low**: between two of them no
permission of the object is met twice. -/
theorem within_height {q : Situation Ctx} {n : ℕ} {a : Goal}
    (h : Cut.Within (Base q) (Names q) (Crosses q) n a) :
    ∃ m < (n + 1) * (mostPermissions q.model + 1), Cut.DerivesIn (Base q) (Edge q) m a := by
  have hflat : ∀ (B : Goal → Prop) a, Cut.Derives B (Names q) a →
      ∃ m ≤ mostPermissions q.model, Cut.DerivesIn B (Names q) m a := by
    intro B a hB
    have hgoals : ∀ {x y : Goal}, x.1 = a.1 → Names q x y →
        x ∈ (permissionNames q.model a.1).map (fun name => (a.1, name)) ∧ y.1 = a.1 := by
      rintro x y hx hxy
      cases hxy with
      | name hrules _ _ _ =>
        obtain ⟨type, htype, hrules⟩ := hrules
        obtain rfl := hx
        refine ⟨List.mem_map.mpr ⟨_, ?_, rfl⟩, rfl⟩
        rw [permissionNames, htype]
        exact List.mem_map_of_mem (mem_of_get hrules)
    obtain ⟨m, hm, hd⟩ := hB.exists_height_le (C := fun x => x.1 = a.1) hgoals rfl
    rw [List.length_map] at hm
    exact ⟨m, hm.trans (length_permissionNames_le q.model a.1), hd⟩
  obtain ⟨m, hm, hd⟩ := Cut.Within.exists_height hflat h
  exact ⟨m, hm, hd.map id (fun _ => id) fun _ _ he _ => (edge_iff q).mpr he⟩

/-! ## What `list()` throws -/

/-- What the application's own code throws: a store, a test or a lookup. -/
inductive Thrown (model : ResolvedModel Ctx) (store : RelationStore) (failure : Failure) : Prop
  | store {request : ObjectPageRequest} (h : store.findObjects request = .error failure)
  | test {name permission : Str} {type : ResolvedObjectType Ctx} {rules : List (ResolvedRule Ctx)}
      {rule : ResolvedRule Ctx} {test : Ctx → Except Failure Bool} {ctx : Ctx}
      (htype : get model.types name = some type)
        (hrules : get type.permissions permission = some rules)
      (hrule : rule ∈ rules) (htest : rule.test = some test) (h : test ctx = .error failure)
  | lookup {name relation field subject id : Str} {type : ResolvedObjectType Ctx}
      {lookup : Str → Except Failure (Option (List Value))}
      (htype : get model.types name = some type)
      (hrelation : get type.relations relation = some (.fromField field subject (some lookup)))
      (h : lookup id = .error failure)

namespace Reverse

variable {r : Reverse Ctx} {message question : Str} {n : ℕ}

theorem holding_depth {type relation : Str} {subject : Subject}
    (h : r.holding type relation subject = .error (.permissionDepth message question n)) :
    Thrown r.model r.store (.permissionDepth message question n) := by
  obtain hstuck | ⟨after, hpage⟩ := drain_error h
  · cases hstuck
  · exact .store hpage

theorem lookup_depth {k relation id : Str} {type : ResolvedObjectType Ctx}
    (htype : get r.model.types k = some type)
    (h : lookup type relation id = .error (.permissionDepth message question n)) :
    Thrown r.model r.store (.permissionDepth message question n) := by
  rw [lookup] at h
  split at h
  case h_1 hrelation =>
    rcases Except.bind_error.mp h with h | ⟨_, _, h⟩
    · exact .lookup htype hrelation h
    · split at h
      · exact (Except.pure_error.mp h).elim
      · cases h
  case h_2 => cases h
  case h_3 => cases h

theorem tested_depth {k name : Str} {type : ResolvedObjectType Ctx}
    {rules : List (ResolvedRule Ctx)}
    {rule : ResolvedRule Ctx} (htype : get r.model.types k = some type)
    (hrules : get type.permissions name = some rules) (hrule : rule ∈ rules)
    (h : r.tested rule type name = .error (.permissionDepth message question n)) :
    Thrown r.model r.store (.permissionDepth message question n) := by
  rw [tested] at h
  split at h
  case h_1 test htest =>
    rw [passes] at h
    split at h
    case h_1 => exact .test htype hrules hrule htest h
    case h_2 => cases h
  case h_2 => cases h

/-- **Rounds throw `PERMISSION_DEPTH` when they run out**, or when the application does. -/
theorem objects_depth {type name : Str}
    (h : r.objects type name = .error (.permissionDepth message question n)) :
    Rounds.rounds r.system .outOfFuel r.fuel (type, name) (r.maxDepth + 1) [] = .ok none ∨
      Thrown r.model r.store (.permissionDepth message question n) := by
  suffices hrounds : ∀ {m previous},
      r.rounds (type, name) m previous = .error (.permissionDepth message question n) →
      Rounds.rounds r.system .outOfFuel r.fuel (type, name) m previous = .ok none ∨
        Thrown r.model r.store (.permissionDepth message question n) from hrounds h
  intro m
  induction m with
  | zero => exact fun _ => Or.inl rfl
  | succ m ih =>
    intro previous h
    rw [Reverse.rounds, reach_eq] at h
    rw [Rounds.rounds]
    rcases Except.bind_error.mp h with h | ⟨⟨found, round⟩, hreach, h⟩
    · obtain hstuck | ⟨k, terms, hequation, hterm⟩ := reach_error h
      · cases hstuck
      · obtain ⟨t, htype, rfl⟩ := Option.map_eq_some_iff.mp hequation
        right
        obtain hfound | ⟨k', image, i, hthrough, himage⟩ := hterm
        · generalize hx : (Except.error (Failure.permissionDepth message question n) :
            Except Failure (List Str)) = x at hfound
          cases mem_terms_found.mp hfound with
          | tuple =>
            rw [direct] at hx
            split at hx
            · exact holding_depth hx.symm
            · cases hx
          | field => exact lookup_depth htype hx.symm
          | refused hrules hrule htest =>
            cases hx
            exact tested_depth htype hrules hrule htest
        · cases mem_terms_through.mp hthrough with
          | set => exact holding_depth himage
          | name => cases himage
          | field => exact lookup_depth htype himage
          | entity => exact holding_depth himage
    · rw [hreach]
      show (if _ then _ else _) = _ ∨ _
      dsimp only at h
      split at h
      case isTrue => exact (Except.pure_error.mp h).elim
      case isFalse hmore =>
        rw [if_neg hmore]
        exact ih h

end Reverse

/-! ## Where `can()` answers -/

section Answers

variable {bound : BoundModel Ctx} {tuples : List RelationTuple}
  {rows : Str → Str → Record} {pages : ℕ}
  {subject : Arg} {ctx : Option Ctx}

/-- Whether every question about a subject is answered: of every name of every type, on every
object. -/
def AnswersAll (bound : BoundModel Ctx) (rows : Str → Str → Record) (subject : Arg)
    (ctx : Option Ctx) :
    Prop :=
  ∀ type name id, declares bound.model.types type name = true → isId id = true →
    isStorable id = true →
    ∃ answer, can bound subject name (.record (rows type id)) ctx = .ok answer

/-- `list()` is not refused for depth: it throws no `PERMISSION_DEPTH`, but of the application's
own. -/
def NotRefused (bound : BoundModel Ctx) (pages : ℕ) (subject : Arg) (ctx : Option Ctx) : Prop :=
  ∀ permission typeName after limit message question n,
    list bound pages subject permission typeName ctx after limit =
      .error (.permissionDepth message question n) →
    Thrown bound.model bound.store (.permissionDepth message question n)

/-- **What `list()` derives is as low as `can()` answers.** -/
theorem derives_height (hkeeps : Keeps bound.store tuples)
    (hids : ∀ t ∈ tuples, isId t.object.id = true ∧ isStorable t.object.id = true)
    (hlookups : LookupsAnswer bound.model rows)
    (hrows : ∀ type id, (rows type id).field (js "type") = .str type ∧
      (rows type id).field (js "id") = .str id)
    (hcan : AnswersAll bound rows subject ctx) {who : Subject}
    (hwho : subjectOf bound.model subject (js "list") = .ok who) (hwst : isStorable who.id = true)
    {r : Reverse Ctx} (hmodel : r.model = bound.model) (hstore : r.store = bound.store)
    (hctx : r.ctx = ctx) (hsubject : r.subject = who) {k : Str × Str} {i : Str} (hk : r.Named k)
    (h : Rounds.Derives r.system k i) :
    ∃ m < (bound.maxDepth + 1) * (mostPermissions bound.model + 1),
      Cut.DerivesIn (Rounds.OwedBase r.system) (Rounds.OwedEdge r.system) m (k, i) := by
  rw [← hstore] at hkeeps
  rw [← hmodel] at hlookups
  obtain ⟨hholds, hst⟩ := Reverse.derives_holds hkeeps hlookups (fun t ht => (hids t ht).2)
    (hsubject ▸ hwst) h
  have hid : isId i = true := by
    obtain hid | ⟨t, ht, hobject⟩ := Holds.known hholds
    · exact hid
    · have := (hids t ht).1
      rwa [hobject] at this
  obtain ⟨answer, hanswer⟩ := hcan k.1 k.2 i (hmodel ▸ hk) hid hst
  obtain ⟨hroot, hwho', hfields⟩ := can_row (hrows k.1 i) hid hst hwho hanswer
  rw [hstore] at hkeeps
  have hq : Reverse.asked r tuples rows = ⟨bound.model, tuples, rowFields rows, ctx, who⟩ := by
    rw [Reverse.asked, rowSituation, hmodel, hctx, hsubject]
  have htrue : answer = true :=
    (can_iff hkeeps hroot hwho' hst hwst hanswer hfields).mpr (hq ▸ hholds)
  obtain ⟨m, hm, hd⟩ := within_height
    (can_within hkeeps hroot hwho' hst hwst (htrue ▸ hanswer) hfields hq)
  rw [← hstore] at hkeeps
  exact ⟨m, by rwa [hq] at hm, Reverse.derivesIn_owed hkeeps hlookups hd⟩

/-- **`list()` is refused for depth no sooner than `can()` of every name**, given rounds for every
permission between two relations. Where `can()` answers, of this subject, every name on every object
by crossing no more than `maxDepth` relations, `list()` of any of them is not refused from
`(maxDepth + 1) * (P + 1)` on, where no type declares more than `P` permissions. -/
theorem list_depth (hkeeps : Keeps bound.store tuples)
    (hids : ∀ t ∈ tuples, isId t.object.id = true ∧ isStorable t.object.id = true)
    (hlookups : LookupsAnswer bound.model rows)
    (hrows : ∀ type id, (rows type id).field (js "type") = .str type ∧
      (rows type id).field (js "id") = .str id)
    (hcan : AnswersAll bound rows subject ctx) {deep : ℕ}
    (hdeep : (bound.maxDepth + 1) * (mostPermissions bound.model + 1) ≤ deep) :
    NotRefused ⟨bound.model, bound.store, deep⟩ pages subject ctx := by
  intro permission typeName after limit message question n h
  rcases Except.bind_error.mp h with h | ⟨_, _, h⟩
  · unfold pageLimit at h
    split at h
    · cases h
    · split at h <;> cases h
    · cases h
  rcases Except.bind_error.mp h with h | ⟨_, _, h⟩
  · unfold cursorOf at h
    split at h <;> cases h
  split at h
  · cases h
  split at h
  case h_2 => cases h
  rcases Except.bind_error.mp h with h | ⟨type, htype, h⟩
  · obtain ⟨_, ⟨⟩⟩ := typeOf_error h
  replace htype := typeOf_ok htype
  have hname := bound.model.checked.name_eq _ (mem_of_get htype)
  split at h
  case isTrue => cases h
  case isFalse hdeclares =>
  rcases Except.bind_error.mp h with h | ⟨who, hwho, h⟩
  · obtain ⟨_, ⟨⟩⟩ := subjectOf_error h
  split at h
  case isTrue => cases h
  case isFalse hstorable =>
  rcases Except.bind_error.mp h with h | ⟨_, _, h⟩
  case inr => cases h
  obtain hnone | hthrown := Reverse.objects_depth h
  case inr => exact hthrown
  have hdeclared : declares bound.model.types type.name permission = true :=
    Reverse.declares_iff.mpr ⟨type, hname ▸ htype, by simpa using hdeclares⟩
  refine (rounds_ne_none (L := (bound.maxDepth + 1) * (mostPermissions bound.model + 1) - 1)
    Reverse.system_named (by exact hdeclared) (fun k i hk hd => ?_) ?_ hnone).elim
  · obtain ⟨m, hm, hd⟩ := derives_height hkeeps hids hlookups hrows hcan hwho
      (by simpa using hstorable)
      rfl rfl rfl rfl hk hd
    exact ⟨m, Nat.le_sub_one_of_lt hm, hd⟩
  · have hpos : 0 < (bound.maxDepth + 1) * (mostPermissions bound.model + 1) :=
      Nat.mul_pos (Nat.succ_pos _) (Nat.succ_pos _)
    change _ ≤ deep + 1
    omega

end Answers

/-! ## Where it is refused sooner -/

def ResolvedRelation.isStored : ResolvedRelation → Bool
  | .stored _ => true
  | .fromField .. => false

/-- Relations are stored, and no rule is under a condition. -/
def StoredOnly (model : ResolvedModel Ctx) : Prop :=
  ∀ e ∈ model.types, (∀ r ∈ e.2.relations, r.2.isStored = true) ∧
    ∀ p ∈ e.2.permissions, ∀ rule ∈ p.2, rule.test.isNone = true

instance (model : ResolvedModel Ctx) : Decidable (StoredOnly model) :=
  inferInstanceAs (Decidable (∀ e ∈ model.types, (∀ r ∈ e.2.relations, r.2.isStored = true) ∧
    ∀ p ∈ e.2.permissions, ∀ rule ∈ p.2, rule.test.isNone = true))

namespace StoredOnly

variable {model : ResolvedModel Ctx} {k name : Str} {type : ResolvedObjectType Ctx}

theorem stored (h : StoredOnly model) (htype : get model.types k = some type)
    {relation : ResolvedRelation} (hrelation : get type.relations name = some relation) :
    ∃ holders, relation = .stored holders := by
  have hstored := (h _ (mem_of_get htype)).1 _ (mem_of_get hrelation)
  cases relation with
  | stored holders => exact ⟨holders, rfl⟩
  | fromField => cases hstored

theorem untested (h : StoredOnly model) (htype : get model.types k = some type)
    {rules : List (ResolvedRule Ctx)} (hrules : get type.permissions name = some rules)
    {rule : ResolvedRule Ctx} (hrule : rule ∈ rules) : rule.test = none :=
  Option.isNone_iff_eq_none.mp ((h _ (mem_of_get htype)).2 _ (mem_of_get hrules) rule hrule)

end StoredOnly

/-- **Of an object no tuple names**, the walk crosses nothing. -/
theorem holds_unnamed {w : Walk Ctx} {tuples : List RelationTuple}
    (hstore : w.store = ofTuples tuples)
    (hstored : StoredOnly w.model) {node : Node} (hnode : ∀ t ∈ tuples, t.object ≠ node.entity)
    {subject : Subject} {fuel : ℕ} {path : List Str} {name : Str} {depth : ℕ} {failure : Failure}
    (hdepth : depth ≤ w.maxDepth) (h : w.holds subject fuel path node name depth = .error failure) :
    failure = .outOfFuel := by
  have hnone : ∀ {α : Type} (f : RelationTuple → Option α) (relation : Str),
      tuples.filterMap (fun t => if t.relation = relation ∧ t.object = node.entity then
      f t else none) =
        [] := fun f relation => List.filterMap_eq_nil_iff.mpr fun t ht =>
      if_neg fun h => hnode t ht h.2
  have hentities : ∀ relation, w.store.findEntities node.entity relation = .ok [] := fun relation =>
    hstore ▸ congrArg Except.ok (hnone _ relation)
  have hsets : ∀ relation, w.store.findSubjectSets node.entity relation = .ok [] := fun relation =>
    hstore ▸ congrArg Except.ok (hnone _ relation)
  induction fuel generalizing path name with
  | zero => exact (Except.error.inj h).symm
  | succ fuel ih =>
    rw [Walk.holds, if_neg (Nat.not_lt.mpr hdepth)] at h
    dsimp only at h
    split at h
    · cases h
    split at h
    · cases h
    case h_2 type htype =>
    split at h
    case isTrue hpermission =>
      obtain ⟨rules, hrules⟩ := Option.isSome_iff_exists.mp hpermission
      rw [Walk.permission, hrules, Option.getD_some] at h
      obtain ⟨rule, hrule, h⟩ := List.anyM_error h
      rw [Walk.rule, Walk.tested, hstored.untested htype hrules hrule] at h
      cases href : rule.ref with
      | name other =>
        rw [href] at h
        exact ih h
      | arrow relation target =>
        have htargets : w.targets type node relation = .ok [] := by
          rw [Walk.targets]
          cases hrelation : get type.relations relation with
          | none => rfl
          | some through =>
            obtain ⟨holders, rfl⟩ := hstored.stored htype hrelation
            dsimp only
            rw [hentities]
            rfl
        rw [href] at h
        dsimp only [pure, Except.pure, bind, Except.bind] at h
        rw [if_neg (by simp), Walk.follow, htargets] at h
        cases h
    case isFalse =>
      rw [Walk.relation] at h
      cases hrelation : get type.relations name with
      | none =>
        rw [hrelation] at h
        cases h
      | some relation =>
        obtain ⟨holders, rfl⟩ := hstored.stored htype hrelation
        rw [hrelation] at h
        dsimp only at h
        rcases Except.bind_error.mp h with h | ⟨_, _, h⟩
        · rw [Walk.direct, hstore] at h
          split at h <;> cases h
        · rw [hsets] at h
          split at h <;> cases h

/-- Ada, on the staff. -/
def ada : Arg := .record (row (js "staff") (js "ada"))

/-- …so that whether `can()` answers is decided by the objects tuples name. -/
theorem can_answers {model : ResolvedModel Unit} {tuples : List RelationTuple} {maxDepth : ℕ}
    (hstored : StoredOnly model) (hstaff : js "staff" ∈ model.subjects) {type name id : Str}
    (hdeclares : declares model.types type name = true) (hid : isId id = true)
    (hst : isStorable id = true)
    (hnamed : ∀ t ∈ tuples, t.object.type = type → Except.isOk (can ⟨model, ofTuples tuples, maxDepth⟩
      ada name (.record (row t.object.type t.object.id)) none) = true) :
    ∃ answer, can ⟨model, ofTuples tuples, maxDepth⟩ ada name (.record (row type id)) none =
      .ok answer := by
  cases hcan : can ⟨model, ofTuples tuples, maxDepth⟩ ada name (.record (row type id)) none with
  | ok answer => exact ⟨answer, rfl⟩
  | error failure =>
    exfalso
    by_cases hnode : ∃ t ∈ tuples, t.object = ⟨type, id⟩
    · obtain ⟨t, ht, hobject⟩ := hnode
      have hok := hnamed t ht (by rw [hobject])
      rw [hobject, hcan] at hok
      cases hok
    · obtain ⟨t, htype, hname⟩ := Reverse.declares_iff.mp hdeclares
      have hroot : objectOf model (.record (row type id)) (js "can") =
        .ok ⟨type, id, row type id⟩ :=
        objectOf_of rfl rfl hid htype
      have hread : typeOf model type (js "can") = .ok t := by
        rw [typeOf, htype]
        rfl
      have hwho : subjectOf model ada (js "can") = .ok (.entity ⟨js "staff", js "ada"⟩) :=
        subjectOf_of rfl rfl rfl (List.contains_iff_mem.mpr hstaff) rfl
      have hterminating : Terminating model (ofTuples tuples) := by
        refine ⟨ofTuples_terminates tuples, fun htype hrules hrule htest => ?_,
          fun htype hrelation => ?_⟩
        · rw [hstored.untested htype hrules hrule] at htest
          cases htest
        · obtain ⟨holders, heq⟩ := hstored.stored htype hrelation
          cases heq
      have hfuel : failure = .outOfFuel := by
        rw [can_eq rfl hroot hread hname hwho hst rfl] at hcan
        exact holds_unnamed rfl hstored (fun t ht heq => hnode ⟨t, ht, heq⟩) (Nat.zero_le _) hcan
      exact can_ne_outOfFuel hterminating ada _ name none (hfuel ▸ hcan)

theorem answersAll_of {model : ResolvedModel Unit} {tuples : List RelationTuple} {maxDepth : ℕ}
    (hstored : StoredOnly model) (hstaff : js "staff" ∈ model.subjects)
    (hnamed : ∀ e ∈ model.types, ∀ name ∈ e.2.relations.map Prod.fst ++ e.2.permissions.map Prod.fst,
      ∀ t ∈ tuples, t.object.type = e.1 → Except.isOk
      (can ⟨model, ofTuples tuples, maxDepth⟩ ada name
        (.record (row t.object.type t.object.id)) none) = true) :
    AnswersAll ⟨model, ofTuples tuples, maxDepth⟩ row ada none := by
  intro type name id hdeclares hid hst
  refine can_answers hstored hstaff hdeclares hid hst ?_
  obtain ⟨t, htype, hname⟩ := Reverse.declares_iff.mp hdeclares
  refine hnamed _ (mem_of_get htype) name (List.mem_append.mpr ?_)
  rw [Insertion.mem_keys, Insertion.mem_keys]
  exact (Bool.or_eq_true ..).mp hname

/-- Folders, viewed by their owners and by whoever views a parent. -/
def folders : ResolvedModel Unit where
  subjects := [js "staff"]
  types := [
    (js "folder", {
      name := js "folder"
      relations := [(js "owners", .stored [.type (js "staff")]),
        (js "parents", .stored [.type (js "folder")])]
      permissions := [(js "view",
        [⟨.name (js "owners"), none⟩, ⟨.arrow (js "parents") (js "view"), none⟩])] })]
  subject_isName := staff_isName
  checked := ⟨by decide, by decide, by decide, by decide, by decide, by decide, by decide⟩

/-- A folder of Ada's and, under it, others each in the one before. -/
def chain : ℕ → List RelationTuple
  | 0 => [⟨⟨js "folder", js "f0"⟩, js "owners", .entity ⟨js "staff", js "ada"⟩⟩]
  | n + 1 => ⟨⟨js "folder", js "f" ++ decimal (n + 1)⟩, js "parents",
      .entity ⟨js "folder", js "f" ++ decimal n⟩⟩ :: chain n

/-- What `list()` is refused with. -/
def refusedAt (question : Str) (maxDepth : ℕ) : Failure :=
  .permissionDepth (js "list: listing " ++ question ++ js " crossed more than " ++
  decimal maxDepth ++
    js " relations without an answer") question maxDepth

theorem folders_lookups : LookupsAnswer folders row := by
  intro name t relation field subject lookup htype hrelation
  obtain ⟨holders, heq⟩ := (by decide : StoredOnly folders).stored htype hrelation
  cases heq

/-- Two folders deep, `can()` crosses one relation and `list()` needs no more than four rounds. -/
theorem list_depth_folders : NotRefused ⟨folders, ofTuples (chain 1), 4⟩ 2 ada none := by
  have hcan : AnswersAll ⟨folders, ofTuples (chain 1), 1⟩ row ada none :=
    answersAll_of (by decide) (by decide) (by decide)
  exact list_depth (ofTuples_keeps _) (by decide) folders_lookups (fun _ _ => ⟨rfl, rfl⟩)
    hcan (by decide)

/-- Folders whose every permission is granted by the one before, and by the next one on a parent. -/
def ranks : ResolvedModel Unit where
  subjects := [js "staff"]
  types := [
    (js "folder", {
      name := js "folder"
      relations := [(js "owners", .stored [.type (js "staff")]),
        (js "parents", .stored [.type (js "folder")])]
      permissions := [
        (js "view", [⟨.name (js "owners"), none⟩, ⟨.arrow (js "parents") (js "comment"), none⟩]),
        (js "comment", [⟨.arrow (js "parents") (js "edit"), none⟩, ⟨.name (js "view"), none⟩]),
        (js "edit", [⟨.arrow (js "parents") (js "share"), none⟩, ⟨.name (js "comment"), none⟩]),
        (js "share", [⟨.name (js "edit"), none⟩])] })]
  subject_isName := staff_isName
  checked := ⟨by decide, by decide, by decide, by decide, by decide, by decide, by decide⟩

/-- Documents, viewed by whoever edits their folder. -/
def documents : ResolvedModel Unit where
  subjects := [js "staff"]
  types := [
    (js "folder", {
      name := js "folder"
      relations := [(js "owners", .stored [.type (js "staff")]),
        (js "parents", .stored [.type (js "folder")])]
      permissions := [
        (js "edit", [⟨.name (js "owners"), none⟩, ⟨.arrow (js "parents") (js "edit"), none⟩]),
        (js "view", [⟨.name (js "owners"), none⟩])] }),
    (js "document", {
      name := js "document"
      relations := [(js "folder", .stored [.type (js "folder")])]
      permissions := [(js "view", [⟨.arrow (js "folder") (js "edit"), none⟩])] })]
  subject_isName := staff_isName
  checked := ⟨by decide, by decide, by decide, by decide, by decide, by decide, by decide⟩

/-- **`list()` is refused for depth sooner than `can()`.** By the round that sees that nothing more
is found: of folders two deep, at the depth `can()` answers every name at. By names of one object:
of a folder alone, at three times that depth. And by objects no question was about: of no document,
at any depth there are as many folders as. -/
theorem list_refused_sooner :
    (AnswersAll ⟨folders, ofTuples (chain 1), 1⟩ row ada none ∧
      list ⟨folders, ofTuples (chain 1), 1⟩ 2 ada (js "view") (.str (js "folder")) none
      .null .undefined =
        .error (refusedAt (js "folder#view") 1)) ∧
    (AnswersAll ⟨ranks, ofTuples (chain 0), 1⟩ row ada none ∧
      list ⟨ranks, ofTuples (chain 0), 3⟩ 2 ada (js "view") (.str (js "folder")) none
      .null .undefined =
        .error (refusedAt (js "folder#view") 3)) ∧
    (∀ type id, declares documents.types type (js "view") = true → isId id = true →
      isStorable id = true → ∃ answer, can ⟨documents, ofTuples (chain 6), 1⟩ ada (js "view")
        (.record (row type id)) none = .ok answer) ∧
    list ⟨documents, ofTuples (chain 6), 6⟩ 2 ada (js "view") (.str (js "document")) none .null
      .undefined = .error (refusedAt (js "document#view") 6) := by
  refine ⟨⟨answersAll_of (by decide) (by decide) (by decide), by decide⟩,
    ⟨answersAll_of (by decide) (by decide) (by decide), by decide⟩, ?_, by decide⟩
  intro type id hdeclares hid hst
  have hnamed : ∀ t ∈ chain 6, Except.isOk (can ⟨documents, ofTuples (chain 6), 1⟩ ada (js "view")
      (.record (row t.object.type t.object.id)) none) = true := by decide
  exact can_answers (by decide) (by decide) hdeclares hid hst fun t ht _ => hnamed t ht

end Janus.Permissions
