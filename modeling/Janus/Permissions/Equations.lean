import Janus.Permissions.Reverse

/-!
# Permissions/Equations — what one `list()` solves

Read backwards, a model is a system of equations (`Reverse.system`): under each `type#name` the
objects found outright, and the images of what other names hold.  The rounds of `Reverse` are the
rounds of `Machinery/Rounds` over it (`reach_eq`), so what they answer is its least fixpoint
(`mem_objects`).
-/

namespace Janus.Permissions

open Js Insertion Paging Rounds

variable {Ctx : Type}

namespace Reverse

variable (r : Reverse Ctx)

/-! ## The equations -/

/-- The part of a relation's equation a holder adds: what its sets hold it on. -/
def setTerm (type : ResolvedObjectType Ctx) (name : Str) :
    Holder → Option (Term (Str × Str) Str Failure)
  | .type _ => none
  | .set holder relation => some <| .through (holder, relation) fun id =>
    r.holding type.name name (.set ⟨⟨holder, id⟩, relation⟩)

/-- A relation's equation. -/
def relationTerms (type : ResolvedObjectType Ctx) (name : Str) :
    List (Term (Str × Str) Str Failure) :=
  match get type.relations name with
  | none => []
  | some (.fromField _ subjectType _) =>
    match r.subject with
    | .set _ => []
    | .entity e => if e.type = subjectType then [.found (lookup type name e.id)] else []
  | some (.stored holders) =>
    .found (r.direct holders type.name name) ::
      holders.filterMap (r.setTerm type name)

/-- The part of an arrow's equation a holder adds: what its entities hold the relation on. -/
def entityTerm (type : ResolvedObjectType Ctx) (relation target : Str) :
    Holder → Option (Term (Str × Str) Str Failure)
  | .set .. => none
  | .type holder =>
    if (get r.model.types holder).isSome then
      some <| .through (holder, target) fun id =>
        r.holding type.name relation (.entity ⟨holder, id⟩)
    else none

/-- What a rule refers to, as parts of its permission's equation. -/
def refTerms (type : ResolvedObjectType Ctx) : RuleRef → List (Term (Str × Str) Str Failure)
  | .name other => [.through (type.name, other) fun id => pure [id]]
  | .arrow relation target =>
    match get type.relations relation with
    | none => []
    | some (.fromField _ subject _) => [.through (subject, target) (lookup type relation)]
    | some (.stored holders) => holders.filterMap (r.entityTerm type relation target)

/-- A rule, as parts of its permission's equation: none when its test denies. -/
def ruleTerms (type : ResolvedObjectType Ctx) (name : Str) (rule : ResolvedRule Ctx) :
    List (Term (Str × Str) Str Failure) :=
  match r.tested rule type name with
  | .error e => [.found (.error e)]
  | .ok false => []
  | .ok true => r.refTerms type rule.ref

/-- The equation of a name of a type. -/
def terms (type : ResolvedObjectType Ctx) (name : Str) : List (Term (Str × Str) Str Failure) :=
  match get type.permissions name with
  | some rules => rules.flatMap (r.ruleTerms type name)
  | none => r.relationTerms type name

/-- **The equations of one `list()`.** -/
def system : System (Str × Str) Str Str Failure where
  key := typeKey
  equation k := (get r.model.types k.1).map fun type => r.terms type k.2

/-! ## A round solves them -/

section Step

variable {r} {reach : Str × Str → Round Str Str → Except Failure (List Str × Round Str Str)}
  {type : ResolvedObjectType Ctx}

theorem relation_eq {name : Str} (round : Round Str Str) :
    r.relation reach type name round =
      (r.relationTerms type name).foldlM (evalTerm reach) ([], round) := by
  rw [relation, relationTerms]
  cases get type.relations name with
  | none => rfl
  | some relation =>
    cases relation with
    | fromField field subjectType _ =>
      cases r.subject with
      | set _ => rfl
      | entity e =>
        by_cases he : e.type = subjectType
        · simp only [if_pos he, List.foldlM_cons, List.foldlM_nil, bind_pure]
          rfl
        · simp only [if_neg he]
          rfl
    | stored holders =>
      simp only [List.foldlM_cons, evalTerm, bind_assoc, pure_bind]
      refine bind_congr fun direct => List.foldlM_filterMap_of (fun s holder => ?_) ..
      cases holder with
      | type _ => rfl
      | set holder relation => rfl

theorem arrow_eq {relation target : Str} (round : Round Str Str) :
    r.arrow reach type relation target round =
      (r.refTerms type (.arrow relation target)).foldlM (evalTerm reach) ([], round) := by
  rw [arrow, refTerms]
  cases get type.relations relation with
  | none => rfl
  | some relation =>
    cases relation with
    | fromField _ subject _ =>
      simp only [List.foldlM_cons, List.foldlM_nil, bind_pure]
      rfl
    | stored holders =>
      refine List.foldlM_filterMap_of (fun s holder => ?_) ..
      cases holder with
      | type holder =>
        simp only [throughEntity, entityTerm]
        split <;> rfl
      | set _ _ => rfl

/-- What a rule refers to is its part of the equation. -/
theorem follow_eq {ref : RuleRef} (found : List Str) (round : Round Str Str) :
    (do let (reached, round) ← r.follow reach type ref round
        pure (addAll found reached, round)) =
      (r.refTerms type ref).foldlM (evalTerm reach) (found, round) := by
  cases ref with
  | name other =>
    simp only [refTerms, List.foldlM_cons, List.foldlM_nil, evalTerm, images_pure, bind_pure,
      pure_bind]
    rfl
  | arrow relation target =>
    have happend := foldlM_evalTerm_addAll reach found
      (r.refTerms type (.arrow relation target)) [] round
    rw [addAll_nil, ← arrow_eq] at happend
    exact happend.symm

theorem rule_eq {name : Str} (s : List Str × Round Str Str) (rule : ResolvedRule Ctx) :
    r.rule reach type name s rule = (r.ruleTerms type name rule).foldlM (evalTerm reach) s := by
  obtain ⟨found, round⟩ := s
  rw [Reverse.rule, ruleTerms]
  cases r.tested rule type name with
  | error e => rfl
  | ok passed =>
    cases passed with
    | false => rfl
    | true => exact follow_eq found round

theorem permission_eq {name : Str} {rules : List (ResolvedRule Ctx)}
    (hp : get type.permissions name = some rules) (round : Round Str Str) :
    r.permission reach type name round =
      (rules.flatMap (r.ruleTerms type name)).foldlM (evalTerm reach) ([], round) := by
  rw [permission, hp]
  exact List.foldlM_flatMap_of rule_eq ..

end Step

/-- **A round of `list()` is a round over its equations.** -/
theorem reach_eq (previous : List (Str × List Str)) (fuel : ℕ) (path : List Str) :
    r.reach previous fuel path = Rounds.reach r.system previous .outOfFuel fuel path := by
  induction fuel generalizing path with
  | zero => rfl
  | succ fuel ih =>
    funext k round
    rw [Reverse.reach, Rounds.reach, ih]
    have hkey : r.system.key k = typeKey k := rfl
    rw [hkey]
    cases get round.current (typeKey k) with
    | some done => rfl
    | none =>
      by_cases hpath : typeKey k ∈ path
      · simp only [if_pos hpath]
      simp only [if_neg hpath, system]
      cases get r.model.types k.1 with
      | none => rfl
      | some type =>
        simp only [Option.map_some, terms]
        cases hp : get type.permissions k.2 with
        | none =>
          simp only [Option.isSome_none, Bool.false_eq_true, if_false, relation_eq]
        | some rules =>
          simp only [Option.isSome_some, if_true, permission_eq hp]

/-! ## The parts of an equation -/

/-- What a name's equation finds outright. -/
inductive Finds (type : ResolvedObjectType Ctx) (name : Str) : Except Failure (List Str) → Prop
  | tuple {holders : List Holder} : get type.permissions name = none →
      get type.relations name = some (.stored holders) →
      Finds type name (r.direct holders type.name name)
  | field {field : Str} {e : Entity} {lk : Option (Str → Except Failure (Option (List Value)))} :
      get type.permissions name = none →
      get type.relations name = some (.fromField field e.type lk) → r.subject = .entity e →
      Finds type name (lookup type name e.id)
  | refused {rules : List (ResolvedRule Ctx)} {rule : ResolvedRule Ctx} {e : Failure} :
      get type.permissions name = some rules → rule ∈ rules → r.tested rule type name = .error e →
      Finds type name (.error e)

/-- What a name's equation goes through, and how. -/
inductive Leads (type : ResolvedObjectType Ctx) (name : Str) :
    Str × Str → (Str → Except Failure (List Str)) → Prop
  | set {holders : List Holder} {holder relation : Str} : get type.permissions name = none →
      get type.relations name = some (.stored holders) → .set holder relation ∈ holders →
      Leads type name (holder, relation) fun id =>
        r.holding type.name name (.set ⟨⟨holder, id⟩, relation⟩)
  | name {rules : List (ResolvedRule Ctx)} {rule : ResolvedRule Ctx} {other : Str} :
      get type.permissions name = some rules → rule ∈ rules → r.tested rule type name = .ok true →
      rule.ref = .name other → Leads type name (type.name, other) fun id => pure [id]
  | field {rules : List (ResolvedRule Ctx)} {rule : ResolvedRule Ctx}
      {relation target field subject : Str}
      {lk : Option (Str → Except Failure (Option (List Value)))} :
      get type.permissions name = some rules → rule ∈ rules → r.tested rule type name = .ok true →
      rule.ref = .arrow relation target →
      get type.relations relation = some (.fromField field subject lk) →
      Leads type name (subject, target) (lookup type relation)
  | entity {rules : List (ResolvedRule Ctx)} {rule : ResolvedRule Ctx}
      {relation target holder : Str} {holders : List Holder} :
      get type.permissions name = some rules → rule ∈ rules → r.tested rule type name = .ok true →
      rule.ref = .arrow relation target →
      get type.relations relation = some (.stored holders) → .type holder ∈ holders →
      (get r.model.types holder).isSome →
      Leads type name (holder, target) fun id =>
        r.holding type.name relation (.entity ⟨holder, id⟩)

variable {r}

theorem mem_terms_found {type : ResolvedObjectType Ctx} {name : Str}
    {x : Except Failure (List Str)} :
    .found x ∈ r.terms type name ↔ r.Finds type name x := by
  constructor
  · intro h
    rw [terms] at h
    cases hp : get type.permissions name with
    | some rules =>
      rw [hp] at h
      obtain ⟨rule, hrule, h⟩ := List.mem_flatMap.mp h
      rw [ruleTerms] at h
      split at h
      case h_1 e he =>
        cases List.mem_singleton.mp h
        exact .refused hp hrule he
      case h_2 => cases h
      case h_3 =>
        rw [refTerms.eq_def] at h
        split at h
        · simp at h
        split at h
        · simp at h
        · simp at h
        obtain ⟨holder, _, h⟩ := List.mem_filterMap.mp h
        cases holder with
        | set _ _ => cases h
        | type _ =>
          rw [entityTerm] at h
          split at h <;> cases h
    | none =>
      rw [hp] at h
      dsimp only at h
      rw [relationTerms] at h
      split at h
      case h_1 => simp at h
      case h_2 hr =>
        split at h
        case h_1 => simp at h
        case h_2 e hs =>
          split at h
          case isTrue he =>
            cases List.mem_singleton.mp h
            exact .field hp (he ▸ hr) hs
          case isFalse => simp at h
      case h_3 holders hr =>
        rcases List.mem_cons.mp h with h | h
        · cases h
          exact .tuple hp hr
        · obtain ⟨holder, _, h⟩ := List.mem_filterMap.mp h
          cases holder <;> cases h
  · intro h
    cases h with
    | tuple hp hr => simp [terms, hp, relationTerms, hr]
    | field hp hr hs => simp [terms, hp, relationTerms, hr, hs]
    | refused hp hm he =>
      simp only [terms, hp, List.mem_flatMap]
      exact ⟨_, hm, by simp [ruleTerms, he]⟩

theorem mem_terms_through {type : ResolvedObjectType Ctx} {name : Str} {k : Str × Str}
    {image : Str → Except Failure (List Str)} :
    .through k image ∈ r.terms type name ↔ r.Leads type name k image := by
  constructor
  · intro h
    rw [terms] at h
    cases hp : get type.permissions name with
    | some rules =>
      rw [hp] at h
      obtain ⟨rule, hrule, h⟩ := List.mem_flatMap.mp h
      rw [ruleTerms] at h
      split at h
      case h_1 => simp at h
      case h_2 => cases h
      case h_3 htested =>
        cases href : rule.ref with
        | name other =>
          rw [href] at h
          cases List.mem_singleton.mp h
          exact .name hp hrule htested href
        | arrow relation target =>
          rw [href, refTerms] at h
          split at h
          case h_1 => cases h
          case h_2 hr =>
            cases List.mem_singleton.mp h
            exact .field hp hrule htested href hr
          case h_3 holders hr =>
            obtain ⟨holder, hholder, h⟩ := List.mem_filterMap.mp h
            cases holder with
            | set _ _ => cases h
            | type holder =>
              rw [entityTerm] at h
              split at h
              case isTrue hsome =>
                cases h
                exact .entity hp hrule htested href hr hholder hsome
              case isFalse => cases h
    | none =>
      rw [hp] at h
      dsimp only at h
      rw [relationTerms] at h
      split at h
      case h_1 => simp at h
      case h_2 =>
        split at h
        case h_1 => simp at h
        case h_2 => split at h <;> simp at h
      case h_3 holders hr =>
        obtain ⟨holder, hholder, h⟩ := List.mem_filterMap.mp
          ((List.mem_cons.mp h).resolve_left (by simp))
        cases holder with
        | type _ => cases h
        | set holder relation =>
          cases h
          exact .set hp hr hholder
  · intro h
    cases h with
    | set hp hr hm =>
      simp only [terms, hp, relationTerms, hr, List.mem_cons, reduceCtorEq, false_or]
      exact List.mem_filterMap.mpr ⟨_, hm, rfl⟩
    | name hp hm ht href =>
      simp only [terms, hp, List.mem_flatMap]
      exact ⟨_, hm, by simp [ruleTerms, ht, href, refTerms]⟩
    | field hp hm ht href hr =>
      simp only [terms, hp, List.mem_flatMap]
      exact ⟨_, hm, by simp [ruleTerms, ht, href, refTerms, hr]⟩
    | entity hp hm ht href hr hh hs =>
      simp only [terms, hp, List.mem_flatMap]
      refine ⟨_, hm, ?_⟩
      simp only [ruleTerms, ht, href, refTerms, hr]
      exact List.mem_filterMap.mpr ⟨_, hh, by simp [entityTerm, hs]⟩

/-! ## What the rounds answer -/

/-- A name its type declares. -/
def Named (r : Reverse Ctx) (k : Str × Str) : Prop := declares r.model.types k.1 k.2 = true

theorem declares_iff {types : List (Str × ResolvedObjectType Ctx)} {type name : Str} :
    declares types type name = true ↔ ∃ t, get types type = some t ∧ t.declares name = true := by
  simp [declares, Option.any_eq_true]

theorem typeKey_inj {k k' : Str × Str} (hk : r.Named k) (hk' : r.Named k')
    (h : typeKey k = typeKey k') : k = k' := by
  obtain ⟨t, ht, _⟩ := declares_iff.mp hk
  obtain ⟨t', ht', _⟩ := declares_iff.mp hk'
  have hn := (isName_notMem (r.model.checked.type_isName _ (mem_of_get ht))).2.1
  have hn' := (isName_notMem (r.model.checked.type_isName _ (mem_of_get ht'))).2.1
  obtain ⟨h₁, h₂⟩ := append_cons_inj hn hn' h
  exact Prod.ext h₁ h₂

/-- Every name an equation leads to is declared. -/
theorem Leads.named {k k' : Str × Str} {image : Str → Except Failure (List Str)}
    {type : ResolvedObjectType Ctx} (ht : get r.model.types k.1 = some type)
    (h : r.Leads type k.2 k' image) : r.Named k' := by
  have hmem := mem_of_get ht
  have hname : type.name = k.1 := r.model.checked.name_eq _ hmem
  cases h with
  | set hp hr hh =>
    refine r.model.checked.sets _ hmem _ (mem_of_get hr) (_, _) ?_
    simp only [ResolvedRelation.sets, List.mem_filterMap]
    exact ⟨_, hh, rfl⟩
  | name hp hm ht' href =>
    have hchecked := r.model.checked.rules _ hmem _ (mem_of_get hp) _ hm
    rw [href] at hchecked
    exact declares_iff.mpr ⟨type, hname ▸ ht, hchecked⟩
  | field hp hm ht' href hr =>
    have hchecked := r.model.checked.rules _ hmem _ (mem_of_get hp) _ hm
    rw [href, RuleRef.checked, hr] at hchecked
    rw [Named]
    simpa [ResolvedRelation.arrowTypes] using hchecked
  | entity hp hm ht' href hr hh _ =>
    have hchecked := r.model.checked.rules _ hmem _ (mem_of_get hp) _ hm
    rw [href, RuleRef.checked, hr] at hchecked
    simp only [Option.any_some, List.all_eq_true] at hchecked
    refine hchecked _ ?_
    simp only [ResolvedRelation.arrowTypes, List.mem_filterMap]
    exact ⟨_, hh, rfl⟩

theorem system_named : Rounds.Named r.system r.Named where
  inj := typeKey_inj
  closed := by
    intro k terms k' image _ heq h
    obtain ⟨type, ht, rfl⟩ := Option.map_eq_some_iff.mp heq
    exact (mem_terms_through.mp h).named ht

theorem rounds_ok {k : Str × Str} {n : ℕ} {previous : List (Str × List Str)} {ids : List Str}
    (h : r.rounds k n previous = .ok ids) :
    Rounds.rounds r.system .outOfFuel r.fuel k n previous = .ok (some ids) := by
  induction n generalizing previous with
  | zero => cases h
  | succ n ih =>
    rw [Reverse.rounds, reach_eq] at h
    rw [Rounds.rounds]
    obtain ⟨⟨found, round⟩, hreach, h⟩ := Except.bind_ok.mp h
    rw [hreach]
    show (if _ then _ else _) = _
    dsimp only at h
    split at h
    case isTrue hlast =>
      rw [if_pos hlast, Except.pure_ok.mp h]
      rfl
    case isFalse hlast =>
      rw [if_neg hlast]
      exact ih h

/-- **`Reverse` answers the least fixpoint of its equations.** -/
theorem mem_objects {type name : Str} {ids : List Str} (hk : r.Named (type, name))
    (h : r.objects type name = .ok ids) :
    ids.Nodup ∧ (∀ id ∈ ids, Rounds.Derives r.system (type, name) id) ∧
      ∀ id, Rounds.Owed r.system (type, name) id → id ∈ ids :=
  mem_rounds system_named hk (rounds_ok h)

/-! ## The rounds end -/

/-- The keys of every name a model declares. -/
def keys (r : Reverse Ctx) : List Str :=
  r.model.types.flatMap fun e =>
    e.2.relations.map (fun rel => typeKey (e.1, rel.1)) ++
      e.2.permissions.map fun p => typeKey (e.1, p.1)

theorem length_keys : r.keys.length < r.fuel := by
  simp [keys, fuel, List.length_flatMap]

theorem mem_keys {k : Str × Str} (hk : r.Named k) : typeKey k ∈ r.keys := by
  obtain ⟨t, ht, hd⟩ := declares_iff.mp hk
  refine List.mem_flatMap.mpr ⟨_, mem_of_get ht, List.mem_append.mpr ?_⟩
  refine ((Bool.or_eq_true ..).mp hd).imp (fun h => ?_) fun h => ?_
  · obtain ⟨rel, hrel⟩ := Option.isSome_iff_exists.mp h
    exact List.mem_map.mpr ⟨_, mem_of_get hrel, rfl⟩
  · obtain ⟨rules, hrules⟩ := Option.isSome_iff_exists.mp h
    exact List.mem_map.mpr ⟨_, mem_of_get hrules, rfl⟩

theorem holding_ne {tuples : List RelationTuple} (hw : Terminating r.model r.store)
    (hkeeps : Keeps r.store tuples) (hpages : tuples.length < r.pages) {type relation : Str}
    {subject : Subject} : r.holding type relation subject ≠ .error .outOfFuel := by
  have hlimit : 0 < MAX_PAGE_SIZE := by decide
  have hpage : ∀ after p, r.store.findObjects ⟨type, relation, subject, after, MAX_PAGE_SIZE⟩ =
    .ok p →
      IsPage (fun id => ⟨⟨type, id⟩, relation, subject⟩ ∈ tuples) after p :=
    fun after p hp => hkeeps.findObjects (by exact hlimit) hp
  refine drain_ne_stuck hpage (fun _ => hw.store.2.2.2 _) 
    (fun id hid => (List.mem_map.mpr ⟨_, hid, rfl⟩ : id ∈ tuples.map (·.object.id))) ?_
  exact Nat.lt_of_le_of_lt List.countP_le_length (by simpa using hpages)

theorem lookup_ne (hw : Terminating r.model r.store) {k relation id : Str}
    {type : ResolvedObjectType Ctx} (ht : get r.model.types k = some type) :
    lookup type relation id ≠ .error .outOfFuel := by
  intro h
  rw [lookup] at h
  split at h
  case h_1 hr =>
    rcases Except.bind_error.mp h with h | ⟨_, _, h⟩
    · exact hw.lookup ht hr h
    · split at h
      · exact (Except.pure_error.mp h).elim
      · cases h
  · cases h
  · cases h

theorem tested_ne (hw : Terminating r.model r.store) {k name : Str}
    {type : ResolvedObjectType Ctx} {rules : List (ResolvedRule Ctx)} {rule : ResolvedRule Ctx}
    (ht : get r.model.types k = some type) (hp : get type.permissions name = some rules)
    (hm : rule ∈ rules) : r.tested rule type name ≠ .error .outOfFuel := by
  intro h
  rw [tested] at h
  split at h
  case h_1 test htest =>
    rw [passes] at h
    split at h
    · exact hw.test ht hp hm htest h
    · cases h
  case h_2 => exact (Except.pure_error.mp h).elim

/-- **The rounds end**: the fuel each is given is enough. -/
theorem objects_ne_outOfFuel {tuples : List RelationTuple} (hw : Terminating r.model r.store)
    (hkeeps : Keeps r.store tuples) (hpages : tuples.length < r.pages) {type name : Str}
    (hk : r.Named (type, name)) : r.objects type name ≠ .error .outOfFuel := by
  have hrounds : ∀ n previous, r.rounds (type, name) n previous = .error .outOfFuel →
      Rounds.rounds r.system .outOfFuel r.fuel (type, name) n previous = .error .outOfFuel := by
    intro n
    induction n with
    | zero => exact fun _ h => by cases h
    | succ n ih =>
      intro previous h
      rw [Reverse.rounds, reach_eq] at h
      rw [Rounds.rounds]
      rcases Except.bind_error.mp h with h | ⟨⟨found, round⟩, hreach, h⟩
      · rw [h]
        rfl
      · rw [hreach]
        show (if _ then _ else _) = _
        dsimp only at h
        split at h
        case isTrue => exact (Except.pure_error.mp h).elim
        case isFalse hlast =>
          rw [if_neg hlast]
          exact ih _ h
  have hequation : ∀ {k : Str × Str} {terms}, r.system.equation k = some terms →
      ∃ t, get r.model.types k.1 = some t ∧ terms = r.terms t k.2 := by
    intro k terms heq
    obtain ⟨t, ht, rfl⟩ := Option.map_eq_some_iff.mp heq
    exact ⟨t, ht, rfl⟩
  intro h
  refine rounds_ne_stuck system_named (fun k hk _ _ _ => mem_keys hk) ?_ ?_ hk length_keys
    (hrounds _ _ h)
  · rintro k terms heq hfound
    obtain ⟨t, ht, rfl⟩ := hequation heq
    generalize hx : (Except.error Failure.outOfFuel : Except Failure (List Str)) = x at hfound
    cases mem_terms_found.mp hfound with
    | tuple =>
      rw [direct] at hx
      split at hx
      · exact holding_ne hw hkeeps hpages hx.symm
      · cases hx
    | field => exact lookup_ne hw ht hx.symm
    | refused hp hm he =>
      cases hx
      exact tested_ne hw ht hp hm he
  · rintro k terms heq k' image hthrough i
    obtain ⟨t, ht, rfl⟩ := hequation heq
    cases mem_terms_through.mp hthrough with
    | set => exact holding_ne hw hkeeps hpages
    | name => exact fun h => (Except.pure_error.mp h).elim
    | field => exact lookup_ne hw ht
    | entity => exact holding_ne hw hkeeps hpages

end Reverse

end Janus.Permissions
