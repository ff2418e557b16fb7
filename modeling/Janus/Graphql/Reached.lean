import Janus.Graphql.Closed
import Janus.Permissions.Define
import Janus.Permissions.Conditions

/-!
# Graphql/Reached — a condition the schema does not see is never reached

Whether a permission reaches a `when()` is decided twice: when the schema is built, over the model
as written, by a search that visits no name again (`reachesCondition`); and in a request, by the
walk over the model as resolved.  A search that found none leaves a set of names closed under
whatever their rules refer to (`reachesCondition_false`); every call of the walk stays within it
(`Within.calls`).  So too of the fields read off an object: a type that is read by id alone has none
(`permission_has_ctx`).
-/

namespace Janus.Graphql

open Js Insertion Calls Relation

/-! ## The search -/

namespace ModelLike

section Search

variable (model : ModelLike)

/-- The rules of a permission. -/
def rulesOf (type name : Str) : List RuleDef := (get (model.typeDef type).permits name).getD []

/-- The names a rule's text refers to. -/
def nexts (type text : Str) : List (Str × Str) :=
  match splitArrow text with
  | relation :: target :: _ =>
    (arrowTargets (get (model.typeDef type).related relation)).map fun next => (next, target)
  | _ => [(type, text)]

/-- The key a name is visited under. -/
def key (next : Str × Str) : Str := next.1 ++ js "." ++ next.2

/-- A name whose rules are texts, each of what they refer to visited. -/
def Settled (seen : List Str) (type name : Str) : Prop :=
  ∀ rule ∈ model.rulesOf type name, ∃ text, rule = .text text ∧
    ∀ next ∈ model.nexts type text, key next ∈ seen

/-- **What a search has visited since**: more names, all of them settled. -/
structure Explored (seen seen' : List Str) : Prop where
  subset : seen ⊆ seen'
  settled : ∀ type name, Permissions.isName type = true → key (type, name) ∈ seen' →
    key (type, name) ∈ seen ∨ model.Settled seen' type name

/-- **Names closed under what their rules refer to**, every rule of them a text. -/
def ClosedUnder (S : Set (Str × Str)) : Prop :=
  ∀ k ∈ S, ∀ rule ∈ model.rulesOf k.1 k.2, ∃ text, rule = .text text ∧
    ∀ next ∈ model.nexts k.1 text, next ∈ S

variable {model}

theorem Settled.mono {seen seen' : List Str} {type name : Str} (h : model.Settled seen type name)
    (hsub : seen ⊆ seen') : model.Settled seen' type name := by
  intro rule hrule
  obtain ⟨text, rfl, hnexts⟩ := h rule hrule
  exact ⟨text, rfl, fun next hnext => hsub (hnexts next hnext)⟩

theorem Explored.refl (seen : List Str) : model.Explored seen seen :=
  ⟨List.Subset.refl seen, fun _ _ _ => Or.inl⟩

theorem Explored.trans {a b c : List Str} (hab : model.Explored a b) (hbc : model.Explored b c) :
    model.Explored a c := by
  refine ⟨List.Subset.trans hab.subset hbc.subset, fun type name htype hmem => ?_⟩
  obtain hb | hsettled := hbc.settled type name htype hmem
  · exact (hab.settled type name htype hb).imp_right fun h => h.mono hbc.subset
  · exact Or.inr hsettled

/-- **One element after the other**: what none of them found was explored for each. -/
theorem anySeen_false {α : Type} {f : α → List Str → Bool × List Str} {Q : α → List Str → Prop}
    (hQ : ∀ {a s s'}, s ⊆ s' → Q a s → Q a s') {as : List α} {seen seen' : List Str}
    (hf : ∀ a ∈ as, ∀ s s', seen ⊆ s → f a s = (false, s') → model.Explored s s' ∧ Q a s')
    (h : anySeen f as seen = (false, seen')) :
    model.Explored seen seen' ∧ ∀ a ∈ as, Q a seen' := by
  induction as generalizing seen with
  | nil =>
    cases h
    exact ⟨.refl _, nofun⟩
  | cons a as ih =>
    rw [anySeen] at h
    split at h
    case h_1 => cases h
    case h_2 s hs =>
      obtain ⟨hexplored, hqa⟩ := hf a List.mem_cons_self seen s (List.Subset.refl seen) hs
      obtain ⟨hrest, hqs⟩ := ih (fun a ha s' s'' hsub => hf a (List.mem_cons_of_mem _ ha) s' s''
        (List.Subset.trans hexplored.subset hsub)) h
      exact ⟨hexplored.trans hrest, List.forall_mem_cons.mpr ⟨hQ hrest.subset hqa, hqs⟩⟩

variable (model) in
/-- The key of every rule. -/
def ruleKeys : List Str :=
  model.definition.flatMap fun type => type.2.permits.flatMap fun permit =>
    permit.2.map fun _ => key (type.1, permit.1)

theorem mem_ruleKeys {type name : Str} {rule : RuleDef} (h : rule ∈ model.rulesOf type name) :
    key (type, name) ∈ model.ruleKeys := by
  rw [rulesOf, typeDef] at h
  cases hdef : get model.definition type with
  | none => simp [hdef] at h
  | some def_ =>
    rw [hdef, Option.getD_some] at h
    cases hrules : get def_.permits name with
    | none => simp [hrules] at h
    | some rules =>
      rw [hrules, Option.getD_some] at h
      exact List.mem_flatMap.mpr ⟨_, mem_of_get hdef, List.mem_flatMap.mpr ⟨_, mem_of_get hrules,
        List.mem_map.mpr ⟨rule, h, rfl⟩⟩⟩

theorem length_ruleKeys_lt : model.ruleKeys.length < model.ruleCount := by
  have hlength : model.ruleKeys.length =
      (model.definition.flatMap fun type => type.2.permits.flatMap Prod.snd).length := by
    simp [ruleKeys, List.length_flatMap]
  rw [ruleCount, hlength]
  omega

/-- What the names of one object type are told apart by. -/
theorem key_inj {a b : Str × Str} (ha : Permissions.isName a.1 = true)
    (hb : Permissions.isName b.1 = true) (h : key a = key b) : a = b := by
  have hdot : ∀ {type : Str}, Permissions.isName type = true → (46 : CodeUnit) ∉ type :=
    fun htype hmem => absurd (Permissions.isName_mem htype hmem) (by decide)
  simp only [key, List.append_assoc] at h
  obtain ⟨htype, hname⟩ := append_cons_inj (hdot ha) (hdot hb) h
  exact Prod.ext htype hname

variable (model) in
/-- What a search does for one rule. -/
def reachesRule (fuel : ℕ) (type : Str) (rule : RuleDef) (seen : List Str) : Bool × List Str :=
  match rule with
  | .conditional => (true, seen)
  | .text rule =>
    match splitArrow rule with
    | relation :: target :: _ =>
      anySeen (fun next seen => model.reachesFrom fuel next target seen)
        (arrowTargets (get (model.typeDef type).related relation)) seen
    | _ => model.reachesFrom fuel type rule seen

variable (model) in
/-- Every type a rule refers to is a name. -/
def Named : Prop :=
  ∀ type name, Permissions.isName type = true → ∀ text, .text text ∈ model.rulesOf type name →
    ∀ next ∈ model.nexts type text, Permissions.isName next.1 = true

/-- **A search that found no condition has settled what it visited**, given fuel for every name with
a rule that it has not. -/
theorem reachesFrom_false (hnamed : model.Named) {fuel : ℕ} {type name : Str}
    {seen seen' : List Str}
    (htype : Permissions.isName type = true)
    (hfuel : model.ruleKeys.countP (fun k => decide (k ∉ seen)) < fuel)
    (h : model.reachesFrom fuel type name seen = (false, seen')) :
    model.Explored seen seen' ∧ key (type, name) ∈ seen' := by
  induction fuel generalizing type name seen seen' with
  | zero => exact absurd hfuel (Nat.not_lt_zero _)
  | succ fuel ih =>
    rw [reachesFrom] at h
    split at h
    case isTrue hmem =>
      cases h
      exact ⟨.refl _, hmem⟩
    case isFalse hnew =>
      replace hnew : key (type, name) ∉ seen := hnew
      have hfuel' : ∀ rule ∈ model.rulesOf type name, ∀ s, key (type, name) :: seen ⊆ s →
          model.ruleKeys.countP (fun k => decide (k ∉ s)) < fuel := by
        intro rule hrule s hsub
        have hless : ∀ k, decide (k ∉ s) = true → decide (k ∉ seen) = true := fun k hk =>
          decide_eq_true fun hmem => of_decide_eq_true hk (hsub (List.mem_cons_of_mem _ hmem))
        have hlt : model.ruleKeys.countP (fun k => decide (k ∉ s)) <
            model.ruleKeys.countP (fun k => decide (k ∉ seen)) :=
          List.countP_lt_countP (a := key (type, name)) hless (mem_ruleKeys hrule)
            (decide_eq_true hnew) (by simpa using hsub List.mem_cons_self)
        omega
      have hrule : ∀ rule ∈ model.rulesOf type name, ∀ s s', key (type, name) :: seen ⊆ s →
          model.reachesRule fuel type rule s = (false, s') → model.Explored s s' ∧
            ∃ text, rule = .text text ∧ ∀ next ∈ model.nexts type text, key next ∈ s' := by
        intro rule hrule s s' hsub hs
        replace hfuel' := hfuel' rule hrule s hsub
        cases rule with
        | conditional => cases hs
        | text text =>
          have hnext := hnamed type name htype text hrule
          suffices hreached : model.Explored s s' ∧ ∀ next ∈ model.nexts type text,
            key next ∈ s' from
            ⟨hreached.1, text, rfl, hreached.2⟩
          simp only [reachesRule] at hs
          split at hs
          case h_1 relation target rest hsplit =>
            simp only [nexts, hsplit, List.forall_mem_map] at hnext ⊢
            refine anySeen_false (Q := fun next s => key (next, target) ∈ s)
              (fun hsub hmem => hsub hmem) (fun next hmem s₁ s₂ hsub₁ hs₁ => ?_) hs
            refine ih (hnext next hmem) (lt_of_le_of_lt ?_ hfuel') hs₁
            exact List.countP_mono_left fun k _ hk => decide_eq_true fun hmem =>
              of_decide_eq_true hk (hsub₁ hmem)
          case h_2 hsplit =>
            have hnexts : model.nexts type text = [(type, text)] := by
              rw [nexts]
              split
              case h_1 heq => exact (hsplit _ _ _ heq).elim
              case h_2 => rfl
            rw [hnexts, List.forall_mem_singleton]
            exact ih htype hfuel' hs
      obtain ⟨hexplored, hrules⟩ := anySeen_false (by
        rintro rule s₁ s₂ hsub ⟨text, hrule, hnexts⟩
        exact ⟨text, hrule, fun next hnext => hsub (hnexts next hnext)⟩) hrule h
      refine ⟨⟨List.Subset.trans (List.subset_cons_self ..) hexplored.subset, ?_⟩,
        hexplored.subset List.mem_cons_self⟩
      intro t n ht hmem
      rcases hexplored.settled t n ht hmem with hmem | hsettled
      · rcases List.mem_cons.mp hmem with heq | hmem
        · obtain ⟨rfl, rfl⟩ := Prod.mk.inj (key_inj ht htype heq)
          exact Or.inr hrules
        · exact Or.inl hmem
      · exact Or.inr hsettled

/-- **Where no condition was found, none is among the names visited.** -/
theorem reachesCondition_false (hnamed : model.Named) {type name : Str}
    (htype : Permissions.isName type = true) (h : model.reachesCondition type name = false) :
    ∃ S : Set (Str × Str), (type, name) ∈ S ∧ model.ClosedUnder S := by
  have hfuel : model.ruleKeys.countP (fun k => decide (k ∉ ([] : List Str))) < model.ruleCount :=
    lt_of_le_of_lt List.countP_le_length length_ruleKeys_lt
  have hfalse : model.reachesFrom model.ruleCount type name [] =
      (false, (model.reachesFrom model.ruleCount type name []).2) := Prod.ext h rfl
  obtain ⟨hexplored, hmem⟩ := reachesFrom_false hnamed htype hfuel hfalse
  refine ⟨{k | Permissions.isName k.1 = true ∧ key k ∈ _}, ⟨htype, hmem⟩, ?_⟩
  rintro ⟨t, n⟩ ⟨ht, hk⟩ rule hrule
  obtain ⟨text, rfl, hnexts⟩ := (hexplored.settled t n ht hk).resolve_left (by simp) rule hrule
  exact ⟨text, rfl, fun next hnext => ⟨hnamed t n ht text hrule next hnext, hnexts next hnext⟩⟩

end Search

end ModelLike

/-! ## The model, as the schema reads it -/

variable {Ctx : Type}

def relationLike : Permissions.RelationDef → RelationDef
  | .fromField (.str field) (.str subject) _ => .fromField field subject
  | .holders values => .holders (values.filterMap Value.asString)
  | _ => .other

def ruleLike : Permissions.RuleDef Ctx → RuleDef
  | .text rule => .text rule
  | _ => .conditional

def permitLike : Permissions.PermitDef Ctx → List RuleDef
  | .rules rules => rules.map ruleLike
  | .other => []

def typeLike (def_ : Permissions.TypeDef Ctx) : TypeDef where
  related := def_.related.map fun relation => (relation.1, relationLike relation.2)
  permits := def_.permits.map fun permit => (permit.1, permitLike permit.2)

/-- `access.model`, of a model defined from `config`: the definition, as written. -/
def likeOf (config : Permissions.ModelConfig Ctx) : ModelLike where
  types := config.entries.map Prod.fst
  definition := config.entries.map fun e => (e.1, typeLike e.2)

section Like

variable {config : Permissions.ModelConfig Ctx} {where_ : Str} {declared : Permissions.TypesContext}
  {types : List (Str × Permissions.ResolvedObjectType Ctx)} {t : Str}
  {type : Permissions.ResolvedObjectType Ctx}

theorem typeDef_likeOf {def_ : Permissions.TypeDef Ctx} (hdef : get config.entries t = some def_) :
    (likeOf config).typeDef t = typeLike def_ := by
  rw [ModelLike.typeDef, likeOf, get_map (fun _ => typeLike), hdef]
  rfl

theorem rulesOf_likeOf {def_ : Permissions.TypeDef Ctx} (hdef : get config.entries t = some def_)
    (name : Str) :
    (likeOf config).rulesOf t name = ((get def_.permits name).map permitLike).getD [] := by
  rw [ModelLike.rulesOf, typeDef_likeOf hdef, typeLike, get_map fun _ => permitLike]

/-- A text is split where it is cut. -/
theorem splitArrow_eq (text : Str) : ModelLike.splitArrow text =
    match Permissions.cutArrow text with
    | none => [text]
    | some (relation, target) => relation :: ModelLike.splitArrow target := by
  induction text using ModelLike.splitArrow.induct with
  | case1 => rfl
  | case2 u => rfl
  | case3 u v rest h ih =>
    rw [ModelLike.splitArrow, if_pos h, Permissions.cutArrow, if_pos h]
  | case4 u v rest h hsplit ih =>
    rw [hsplit] at ih
    split at ih <;> cases ih
  | case5 u v rest h part parts hsplit ih =>
    rw [ModelLike.splitArrow, if_neg h, hsplit, Permissions.cutArrow, if_neg h]
    rw [hsplit] at ih
    cases hcut : Permissions.cutArrow (v :: rest) with
    | none =>
      rw [hcut] at ih
      cases ih
      rfl
    | some cut =>
      rw [hcut] at ih
      cases ih
      rfl

theorem cutArrow_of_notMem {text : Str} (h : (45 : CodeUnit) ∉ text) :
    Permissions.cutArrow text = none := by
  induction text using Permissions.cutArrow.induct with
  | case1 u v rest heq => exact absurd heq.1 (by simp at h; exact fun hu => h.1 hu.symm)
  | case2 u v rest hne ih =>
    rw [Permissions.cutArrow, if_neg hne, ih fun hm => h (List.mem_cons_of_mem _ hm)]
    rfl
  | case3 text hshort =>
    rw [Permissions.cutArrow]
    exact hshort

/-- A name is one part. -/
theorem splitArrow_of_isName {name : Str} (h : Permissions.isName name = true) :
    ModelLike.splitArrow name = [name] := by
  have hdash : (45 : CodeUnit) ∉ name := fun hm =>
    absurd (Permissions.isName_mem h hm) (by decide)
  rw [splitArrow_eq, cutArrow_of_notMem hdash]

/-- The types a resolved relation names. -/
def typesIn : Permissions.ResolvedRelation → List Str
  | .fromField _ subject _ => [subject]
  | .stored holders => holders.map fun
    | .type type => type
    | .set type _ => type

theorem reachedBy_eq {relation : Str} {through : Permissions.ResolvedRelation}
    (h : get type.relations relation = some through) :
    Permissions.reachedBy type relation = typesIn through := by
  rw [Permissions.reachedBy, h]
  cases through <;> rfl

/-- **An arrow reaches the types its relation is written with.** -/
theorem arrowTargets_like {at_ name : Str} {value : Permissions.RelationDef}
    {relation : Permissions.ResolvedRelation}
    (h : Permissions.resolveRelation where_ declared at_ name value = .ok relation) :
    ModelLike.arrowTargets (some (relationLike value)) = typesIn relation := by
  have hok := Permissions.resolveRelation_ok h
  cases relation with
  | fromField field subject lookup =>
    obtain ⟨_, rfl⟩ := hok
    rfl
  | stored holders =>
    obtain ⟨values, here, rfl, hall⟩ := hok
    rw [relationLike, ModelLike.arrowTargets, typesIn]
    clear h
    induction hall with
    | nil => rfl
    | @cons value holder values holders hvalue _ ih =>
      obtain ⟨text, rfl, htext⟩ := Permissions.resolveHolder_ok hvalue
      rw [List.filterMap_cons_some (by rfl : (Value.str text).asString = some text), List.map_cons,
        List.map_cons, ih]
      cases holder with
      | type => rw [htext]
      | set => rw [htext.1]

theorem arrowTargets_likeOf {def_ : Permissions.TypeDef Ctx}
    (hdef : get config.entries t = some def_)
    (hof : Permissions.Resolving.TypeOf where_ declared t def_ type) {relation : Str}
    {through : Permissions.ResolvedRelation} (hthrough : get type.relations relation = some through) :
    ModelLike.arrowTargets (get ((likeOf config).typeDef t).related relation) =
      typesIn through := by
  obtain ⟨value, hvalue, hresolve⟩ := get_mapEntries_some hof.relations hthrough
  rw [typeDef_likeOf hdef, typeLike, get_map fun _ => relationLike, hvalue]
  exact arrowTargets_like hresolve

/-- **An arrow accepted follows object types only**, to a name each of them declares. -/
theorem arrow_declared {here value relation target : Str} {through : Permissions.ResolvedRelation}
    (href : Permissions.resolveRef where_
      (Permissions.ruleContext declared t type.relations : Permissions.RuleContext Ctx) here value =
      .ok (.arrow relation target)) (hthrough : get type.relations relation = some through) :
    ∀ t' ∈ typesIn through, t' ∈ declared.typeNames ∧ target ∈ declared.namesOf t' := by
  obtain ⟨through', hthrough', htargets⟩ := Permissions.resolveRef_relation href
  cases hthrough.symm.trans hthrough'
  intro t' ht'
  cases through with
  | fromField field subject lookup =>
    obtain rfl := List.mem_singleton.mp ht'
    obtain ⟨_, hnames, heq, hmem⟩ := htargets _ (List.mem_singleton_self _)
    cases heq
    exact ⟨hnames, hmem⟩
  | stored holders =>
    obtain ⟨holder, hholder, rfl⟩ := List.mem_map.mp ht'
    obtain ⟨_, hnames, heq, hmem⟩ := htargets _ (List.mem_map.mpr ⟨holder, hholder, rfl⟩)
    cases holder with
    | type =>
      cases heq
      exact ⟨hnames, hmem⟩
    | set => cases heq

/-- The names a reference asks. -/
def refNexts (t : Str) (type : Permissions.ResolvedObjectType Ctx) :
    Permissions.RuleRef → List (Str × Str)
  | .name name => [(t, name)]
  | .arrow relation target => (Permissions.reachedBy type relation).map fun next => (next, target)

/-- **What a text that resolves refers to**, as the search reads it. -/
theorem nexts_likeOf (h : Permissions.Resolving where_ declared config.entries types)
    {def_ : Permissions.TypeDef Ctx} (hdef : get config.entries t = some def_)
    (hof : Permissions.Resolving.TypeOf where_ declared t def_ type) {here value : Str}
    {ref : Permissions.RuleRef}
    (href : Permissions.resolveRef where_
      (Permissions.ruleContext declared t type.relations : Permissions.RuleContext Ctx) here value =
      .ok ref) :
    (likeOf config).nexts t value = refNexts t type ref := by
  cases ref with
  | name name =>
    obtain ⟨rfl, hcut, -⟩ := Permissions.resolveRef_ok href
    rw [ModelLike.nexts, splitArrow_eq, hcut]
    rfl
  | arrow relation target =>
    obtain ⟨through, hthrough, -⟩ := Permissions.resolveRef_relation href
    replace hthrough : get type.relations relation = some through := hthrough
    have hcut := Permissions.resolveRef_ok href
    have hdeclared := arrow_declared href hthrough
    rw [ModelLike.nexts, splitArrow_eq, hcut]
    dsimp only
    rw [refNexts, reachedBy_eq hthrough, ← arrowTargets_likeOf hdef hof hthrough]
    by_cases hname : Permissions.isName target = true
    · rw [splitArrow_of_isName hname]
    · -- Nothing declares what is no name, so that the arrow reaches nothing.
      have hnone : ModelLike.arrowTargets
          (get ((likeOf config).typeDef t).related relation) = [] := by
        rw [arrowTargets_likeOf hdef hof hthrough]
        exact List.eq_nil_iff_forall_not_mem.mpr fun t' ht' =>
          hname (h.isName_of_mem_namesOf (hdeclared t' ht').2)
      rw [splitArrow_eq, hnone]
      cases Permissions.cutArrow target <;> exact congrArg (List.map _) hnone

/-- **A rule resolved was written**, as a text that resolves to what it refers to or under a
condition. -/
theorem rule_likeOf {def_ : Permissions.TypeDef Ctx} (hdef : get config.entries t = some def_)
    (hof : Permissions.Resolving.TypeOf where_ declared t def_ type) {name : Str}
    {rules : List (Permissions.ResolvedRule Ctx)} (hrules : get type.permissions name = some rules)
    {rule : Permissions.ResolvedRule Ctx} (hrule : rule ∈ rules) :
    ∃ written ∈ (likeOf config).rulesOf t name, ∀ value, written = .text value →
      rule.test = none ∧ ∃ here, Permissions.resolveRef where_
        (Permissions.ruleContext declared t type.relations : Permissions.RuleContext Ctx) here value =
          .ok rule.ref := by
  obtain ⟨permit, hpermit, hresolve⟩ := get_mapEntries_some hof.permissions hrules
  obtain ⟨defs, rfl, hall⟩ := Permissions.resolvePermit_ok hresolve
  obtain ⟨written, hwritten, here, hok⟩ := hall.flip.exists_right hrule
  refine ⟨ruleLike written, ?_, fun value htext => ?_⟩
  · rw [rulesOf_likeOf hdef, hpermit]
    exact List.mem_map_of_mem hwritten
  · cases written with
    | text value' =>
      cases htext
      obtain ⟨value, hcore, href⟩ := Permissions.resolveRule_ref hok
      cases hcore
      exact ⟨(Permissions.resolveRule_ok hok).2, here, href⟩
    | when => cases htext
    | other => cases htext

/-- Every type a text refers to is an object type. -/
theorem named_likeOf (h : Permissions.Resolving where_ declared config.entries types) :
    (likeOf config).Named := by
  intro t name hname text htext next hnext
  cases hdef : get config.entries t with
  | none =>
    rw [ModelLike.rulesOf, ModelLike.typeDef, likeOf, get_map fun _ => typeLike, hdef] at htext
    cases htext
  | some def_ =>
    obtain ⟨type, -, hof⟩ := h.typeOf_entry hdef
    rw [rulesOf_likeOf hdef] at htext
    have hread := get_mapEntries hof.permissions name
    cases hpermit : get def_.permits name with
    | none =>
      rw [hpermit] at htext
      cases htext
    | some permit =>
      rw [hpermit] at htext hread
      obtain ⟨rules, -, hrules⟩ := hread
      obtain ⟨defs, rfl, hall⟩ := Permissions.resolvePermit_ok hrules
      obtain ⟨written, hwritten, htext⟩ := List.mem_map.mp htext
      obtain ⟨rule, -, here, hrule⟩ := hall.exists_right hwritten
      cases written with
      | when => cases htext
      | other => cases htext
      | text value =>
        cases htext
        obtain ⟨_, hcore, href⟩ := Permissions.resolveRule_ref hrule
        cases hcore
        rw [nexts_likeOf h hdef hof href] at hnext
        cases hrefeq : rule.ref with
        | name own =>
          rw [hrefeq] at hnext
          rw [List.mem_singleton.mp hnext]
          exact hname
        | arrow relation target =>
          rw [hrefeq] at href hnext
          obtain ⟨t', ht', rfl⟩ := List.mem_map.mp hnext
          obtain ⟨through, hthrough, -⟩ := Permissions.resolveRef_relation href
          rw [reachedBy_eq hthrough] at ht'
          have hmem := (arrow_declared href hthrough t' ht').1
          rw [h.typeNames] at hmem
          obtain ⟨entry, hentry, rfl⟩ := List.mem_map.mp hmem
          exact h.isName entry hentry

/-- A relation read from a field is among the fields the schema reads. -/
theorem fieldsOf_likeOf {def_ : Permissions.TypeDef Ctx} (hdef : get config.entries t = some def_)
    (hof : Permissions.Resolving.TypeOf where_ declared t def_ type) {relation field subject : Str}
    {lookup : Option (Str → Except Permissions.Failure (Option (List Value)))}
    (h : get type.relations relation = some (.fromField field subject lookup)) :
    (likeOf config).fieldsOf t ≠ [] := by
  obtain ⟨value, hvalue, hresolve⟩ := get_mapEntries_some hof.relations h
  obtain ⟨_, rfl⟩ := Permissions.resolveRelation_ok hresolve
  rw [ModelLike.fieldsOf, typeDef_likeOf hdef]
  exact List.ne_nil_of_mem (List.mem_filterMap.mpr
    ⟨_, List.mem_map.mpr ⟨_, mem_of_get hvalue, rfl⟩, rfl⟩)

/-! ## The walk stays within what was searched -/

/-- A call of a name that was visited, or of no permission. -/
def Within (S : Set (Str × Str)) (w : Permissions.Walk Ctx) (c : Permissions.Walk.Config) : Prop :=
  ∀ type, get w.model.types c.node.entity.type = some type →
    get type.permissions c.name = none ∨ (c.node.entity.type, c.name) ∈ S

section Within

variable {S : Set (Str × Str)}

/-- A rule of a name visited is under no condition, and asks names visited. -/
theorem rule_within (h : Permissions.Resolving where_ declared config.entries types)
    (hclosed : (likeOf config).ClosedUnder S) (htype : get types t = some type) {name : Str}
    (hmem : (t, name) ∈ S) {rules : List (Permissions.ResolvedRule Ctx)}
    (hrules : get type.permissions name = some rules) {rule : Permissions.ResolvedRule Ctx}
    (hrule : rule ∈ rules) : rule.test = none ∧ ∀ next ∈ refNexts t type rule.ref, next ∈ S := by
  obtain ⟨def_, hdef, hof⟩ := h.typeOf htype
  obtain ⟨written, hwritten, hok⟩ := rule_likeOf hdef hof hrules hrule
  obtain ⟨text, rfl, hnexts⟩ := hclosed _ hmem written hwritten
  obtain ⟨htest, here, href⟩ := hok text rfl
  exact ⟨htest, nexts_likeOf h hdef hof href ▸ hnexts⟩

variable {w : Permissions.Walk Ctx} {c c' : Permissions.Walk.Config}

/-- **Whatever a call within them calls is within them**: a set is of a relation, and so of no
permission. -/
theorem Within.calls (h : Permissions.Resolving where_ declared config.entries w.model.types)
    (hclosed : (likeOf config).ClosedUnder S) (hwithin : Within S w c) (hcall : w.Calls c c') :
    Within S w c' := by
  cases hcall with
  | name htype hrules hrule href =>
    obtain hnone | hmem := hwithin _ htype
    · cases hrules.symm.trans hnone
    · have hnext := (rule_within h hclosed htype hmem hrules hrule).2
      rw [href] at hnext
      exact fun _ _ => Or.inr (hnext _ (List.mem_singleton_self _))
  | arrow _ htype hrules hrule href hnodes hnode =>
    obtain hnone | hmem := hwithin _ htype
    · cases hrules.symm.trans hnone
    · have hnext := (rule_within h hclosed htype hmem hrules hrule).2
      rw [href] at hnext
      exact fun _ _ => Or.inr (hnext _ (List.mem_map_of_mem
        (Permissions.Walk.targets_type hnodes hnode)))
  | @set node name depth type holders sets set _ htype hrelation _ _ hadmits =>
    intro target htarget
    obtain ⟨holder, hholder, hadmits⟩ := List.any_eq_true.mp hadmits
    cases holder with
    | type => cases hadmits
    | set t relation =>
      obtain ⟨rfl, rfl⟩ := of_decide_eq_true hadmits
      obtain ⟨_, -, hof⟩ := h.typeOf htype
      obtain ⟨_, -, hresolve⟩ := get_mapEntries_some hof.relations hrelation
      obtain ⟨target', htarget', hsome⟩ := h.mem_relationNames
        (Permissions.sets_of_resolveRelation hresolve _ (List.mem_filterMap.mpr ⟨_, hholder, rfl⟩))
      cases htarget.symm.trans htarget'
      refine Or.inl (Option.eq_none_iff_forall_ne_some.mpr fun rules hrules => ?_)
      rw [Permissions.Walk.relation_none htarget hrules] at hsome
      cases hsome

theorem Within.plain (h : Permissions.Resolving where_ declared config.entries w.model.types)
    (hclosed : (likeOf config).ClosedUnder S) (hwithin : Within S w c) : w.Plain c := by
  intro type rules htype hrules rule hrule
  obtain hnone | hmem := hwithin type htype
  · cases hrules.symm.trans hnone
  · exact (rule_within h hclosed htype hmem hrules hrule).1

end Within

end Like

/-! ## What a guard asks of `can()` -/

section Asks

variable {V E : Type}

/-- **A question fits a check**: of its type, under a `ctx` where a condition is reached, and of an
object named by its id alone only where nothing holds or loads one. -/
structure Fits (check : PermissionCheck) (permission : Str) (object : ObjectLike) (ctx : Option V) :
    Prop where
  name : permission = check.name
  type : object.type = check.type
  ctx : ctx.isSome = check.condition
  bare : object.data = none → check.path.held = false ∧ check.load = false

/-- Every question asked fits one of some checks. -/
def AsksOnly (checks : List PermissionCheck) (_ : Asked V E) (a : Ask V E) : Prop :=
  ∀ fresh user permission object ctx, a = .check fresh user permission object ctx →
    ∃ check ∈ checks, Fits check permission object ctx

variable {checks : List PermissionCheck} {log : Asked V E}

theorem asksOnly_free : Free (AsksOnly (V := V) (E := E) checks) :=
  fun _ _ hcheck _ _ _ _ _ _ _ h => (hcheck _ _ _ _ _ h).elim

theorem askCheck_asks {check : PermissionCheck} (hcheck : check ∈ checks) (asking : Asking)
    {question : ObjectLike × Except (Refusal E) (Option V)}
    (hfits : ∀ ctx, question.2 = .ok ctx → Fits check check.name question.1 ctx) :
    Knows (AsksOnly checks) (fun _ _ => True) log (askCheck check asking question) := by
  rw [askCheck]
  split
  case h_1 => trivial
  case h_2 ctx hctx =>
    refine Knows.perform_bind ?_ fun r => ?_
    · rintro _ _ _ _ _ ⟨⟩
      exact ⟨check, hcheck, hfits ctx hctx⟩
    · cases r with
      | error e => trivial
      | ok answer => trivial

/-- **A `@permission` asks what fits it.** -/
theorem enforcePermission_asks {check : PermissionCheck} (hcheck : check ∈ checks)
    (asking : Asking) :
    Knows (AsksOnly checks) (fun _ _ => True) log
      (enforcePermission (V := V) (E := E) check asking) := by
  rw [enforcePermission]
  split
  case h_1 => trivial
  case h_2 targets htargets =>
  refine Knows.bind ((Knows.each (fun hlog h object hobject => (h object hobject).later hlog)
    fun log target _ => objectOf_knows check asksOnly_free target).mono fun log₁ r _ hr => ?_)
  cases r with
  | error e => trivial
  | ok settled =>
  have hfound := hr settled rfl
  refine Knows.bind ((all_knows asksOnly_free settled).mono fun log₂ r _ hr => ?_)
  cases r with
  | error e => trivial
  | ok objects =>
  obtain rfl := hr objects rfl
  dsimp only
  split
  case isTrue => trivial
  have hobjects : ∀ object ∈ objects.filterMap id, object.type = check.type ∧
      (object.data = none → check.path.held = false ∧ check.load = false) := by
    intro object hobject
    obtain ⟨_, hsome, rfl⟩ := List.mem_filterMap.mp hobject
    obtain ⟨target, htarget, hread⟩ := hfound.flip.exists_right (List.mem_map_of_mem hsome)
    have hheld := isSome_holder htargets htarget
    cases hread object rfl with
    | held => exact ⟨rfl, by simp⟩
    | loaded => exact ⟨rfl, by simp⟩
    | named _ hnone hload =>
      rw [hnone] at hheld
      exact ⟨rfl, fun _ => ⟨hheld.symm, hload⟩⟩
  refine Knows.bind ((Knows.each (fun _ h => h)
    fun log object _ => ctxOf_knows check asksOnly_free object).mono fun log₃ r _ hr => ?_)
  cases r with
  | error e => trivial
  | ok ctxs =>
  have hctxs := hr ctxs rfl
  refine Knows.bind ((Knows.each (fun _ _ => trivial) fun log question hquestion =>
    (askCheck_asks hcheck asking fun ctx hctx => ?_).mono fun _ _ _ _ _ _ => trivial).mono
      fun log₄ r _ _ => ?_)
  · obtain ⟨htype, hbare⟩ := hobjects _ (List.of_mem_zip hquestion).1
    obtain ⟨_, -, hanswered⟩ := hctxs.flip.exists_right (List.of_mem_zip hquestion).2
    exact ⟨rfl, htype, hanswered ctx hctx, hbare⟩
  cases r with
  | error e => trivial
  | ok settled =>
  refine Knows.bind ((all_knows asksOnly_free settled).mono fun log₅ r _ _ => ?_)
  cases r with
  | error e => trivial
  | ok answers =>
    dsimp only
    split <;> trivial

theorem enforcePermissions_asks (access : Bool) (asking : Asking) :
    Knows (AsksOnly checks) (fun _ _ => True) log
      (enforcePermissions (V := V) (E := E) checks access asking) := by
  rw [enforcePermissions.eq_def]
  split
  · trivial
  split
  · trivial
  refine Knows.bind ((Knows.each (fun _ _ => trivial) fun log check hcheck =>
    (enforcePermission_asks hcheck asking).mono fun _ _ _ _ _ _ => trivial).mono fun _ r _ _ => ?_)
  cases r with
  | error e => trivial
  | ok units => trivial

theorem enforceAge_asks (maxAgeMs : Option ℤ) :
    Knows (AsksOnly checks) (fun _ _ => True) log (enforceAge (V := V) (E := E) maxAgeMs) := by
  cases maxAgeMs with
  | none => trivial
  | some maxAgeMs =>
    refine Knows.perform_bind (asksOnly_free _ _ (by simp) (by simp) (by simp)) fun r => ?_
    rcases r with e | _ | session
    · trivial
    · trivial
    · dsimp only
      split
      · trivial
      refine Knows.perform_bind (asksOnly_free _ _ (by simp) (by simp) (by simp)) fun now => ?_
      split <;> trivial

/-- **A guard asks what fits its checks.** -/
theorem guarded_asks {resolver : Ask V E} (hresolver : resolver = .resolve ∨ resolver = .subscribe)
    (requirement : Requirement) (resolving : Resolving) :
    Knows (AsksOnly requirement.permissions) (fun _ _ => True) []
      (guarded (V := V) (E := E) resolver requirement resolving) := by
  suffices henforce : Knows (AsksOnly requirement.permissions) (fun _ _ => True) []
      (enforce (V := V) (E := E) requirement resolving) by
    refine Knows.bind (henforce.mono fun _ r _ _ => ?_)
    cases r with
    | error e => trivial
    | ok _ =>
      refine Knows.perform_bind ?_ fun _ => trivial
      rintro _ _ _ _ _ rfl
      obtain h | h := hresolver <;> cases h
  rw [enforce]
  split
  · trivial
  refine Knows.perform_bind (asksOnly_free _ _ (by simp) (by simp) (by simp)) fun r => ?_
  rcases r with e | _ | user
  · trivial
  · trivial
  dsimp only
  split
  · trivial
  refine Knows.bind ((enforceAge_asks requirement.maxAgeMs).mono fun _ r _ _ => ?_)
  cases r with
  | error e => trivial
  | ok _ => exact enforcePermissions_asks resolving.access _

theorem unguarded_asks {resolver : Ask V E} (hresolver : resolver = .resolve ∨
    resolver = .subscribe)
    (resolving : Resolving) :
    Knows (AsksOnly checks) (fun _ _ => True)
      [] (unguarded (V := V) (E := E) resolver resolving) := by
  refine Knows.perform_bind ?_ fun _ => trivial
  rintro _ _ _ _ _ rfl
  exact hresolver.elim nofun nofun

/-- Each check is a `@permission` accepted. -/
theorem requirementOf_permission {field : Str} {args known : List Str}
    {directives : FieldDirectives}
    {wiring : Wiring} {requirement : Requirement}
    (h : requirementOf field args directives known wiring = .ok (some requirement))
    {check : PermissionCheck} (hcheck : check ∈ requirement.permissions) :
    ∃ use, permissionCheckOf field use wiring args = .ok check := by
  rw [requirementOf] at h
  split at h
  · cases h
  obtain ⟨types, -, h⟩ := Except.bind_ok.mp h
  obtain ⟨maxAgeMs, -, h⟩ := Except.bind_ok.mp h
  obtain ⟨permissions, hpermissions, h⟩ := Except.bind_ok.mp h
  cases h
  obtain ⟨use, -, huse⟩ := (List.mapM_oks hpermissions).flip.exists_right hcheck
  exact ⟨use, huse⟩

/-- **What a field guarded asks fits a `@permission` accepted.** -/
theorem applyField_asks {type : ObjectType} {field : Field} {known : List Str} {wiring : Wiring}
    {resolvers : Resolvers V E} (hbuilt : applyField type field known wiring = .ok resolvers)
    {run : Resolving → Guard V E Unit} (hrun : run = resolvers.resolve ∨
      resolvers.subscribe = some run)
    {resolving : Resolving} {more : Asked V E} {fresh : Bool} {user : User} {permission : Str}
    {object : ObjectLike} {ctx : Option V}
    {k : Reply (.check fresh user permission object ctx : Ask V E) → Guard V E Unit}
    (htrace : Trace (run resolving) more (.call (.check fresh user permission object ctx) k)) :
    ∃ use check, permissionCheckOf (nameOf type field) use wiring field.args = .ok check ∧
      Fits check permission object ctx := by
  suffices hknows : ∃ checks : List PermissionCheck,
      (∀ check ∈ checks, ∃ use, permissionCheckOf (nameOf type field) use wiring field.args =
        .ok check) ∧ Knows (AsksOnly checks) (fun _ _ => True) [] (run resolving) by
    obtain ⟨checks, hchecks, hknows⟩ := hknows
    obtain ⟨check, hcheck, hfits⟩ := hknows.trace htrace _ _ _ _ _ rfl
    obtain ⟨use, huse⟩ := hchecks check hcheck
    exact ⟨use, check, huse, hfits⟩
  obtain ⟨built, hrequirement, h⟩ := Except.bind_ok.mp hbuilt
  cases built with
  | none =>
    refine ⟨[], nofun, ?_⟩
    obtain rfl := Except.pure_ok.mp h
    obtain rfl | hsubscribe := hrun
    · exact unguarded_asks (Or.inl rfl) resolving
    · split at hsubscribe
      · cases hsubscribe
        exact unguarded_asks (Or.inr rfl) resolving
      · cases hsubscribe
  | some requirement =>
    refine ⟨requirement.permissions, fun check hcheck =>
    requirementOf_permission hrequirement hcheck, ?_⟩
    obtain rfl := Except.pure_ok.mp h
    split at hrun
    · obtain rfl | hsubscribe := hrun
      · exact guarded_asks (Or.inl rfl) { requirement with maxAgeMs := none } resolving
      · cases hsubscribe
        exact guarded_asks (Or.inr rfl) requirement resolving
    · obtain rfl | hsubscribe := hrun
      · exact guarded_asks (Or.inl rfl) requirement resolving
      · cases hsubscribe

end Asks

/-! ## Nothing asked is missing -/

/-- **Without a `ctx`, `can()` asked of a name on objects of a type comes to no condition**: no call
its walk may make has a rule under one, and whatever stands for what runs them, it answers the same.
-/
def NeverTests (model : Permissions.ResolvedModel Ctx) (type name : Str) : Prop :=
  ∀ store maxDepth object (root : Permissions.ObjectArg),
    Permissions.objectOf model object (js "can") = .ok root → root.type = type →
    (∀ question c, ReflTransGen (Permissions.Walk.Calls ⟨model, store, maxDepth, none, question⟩)
        ⟨⟨⟨root.type, root.id⟩, some root.data⟩, name, 0⟩ c →
      Permissions.Walk.Plain ⟨model, store, maxDepth, none, question⟩ c) ∧
    ∀ subject passes,
      Permissions.canBy ⟨model, store, maxDepth⟩
        (fun w who c => w.holdsTesting passes who (Permissions.walkFuel w.model w.maxDepth) [] c)
        subject name object none = Permissions.can ⟨model, store, maxDepth⟩ subject name object none

/-- **`can()` asked of a name on an object reads no field of anything**: no call its walk may make
asks for one, and whatever stands for what reads them, it answers the same. -/
def NeverReads (model : Permissions.ResolvedModel Ctx) (object : Arg) (name : Str) : Prop :=
  ∀ store maxDepth ctx (root : Permissions.ObjectArg),
    Permissions.objectOf model object (js "can") = .ok root →
    (∀ question c type,
      ReflTransGen (Permissions.Walk.Calls ⟨model, store, maxDepth, ctx, question⟩)
        ⟨⟨⟨root.type, root.id⟩, some root.data⟩, name, 0⟩ c →
      get model.types c.node.entity.type = some type → ¬ Permissions.AsksField type c.name) ∧
    ∀ subject field,
      Permissions.canBy ⟨model, store, maxDepth⟩
        (fun w who c => w.holdsBy field who (Permissions.walkFuel w.model w.maxDepth) [] c)
        subject name object ctx = Permissions.can ⟨model, store, maxDepth⟩ subject name object ctx

/-- The object made of a type and an id alone. -/
def ObjectLike.bare (object : ObjectLike) : Arg :=
  .record (Record.of [(js "type", .str object.type), (js "id", .str object.id)] false)

section Missing

variable {config : Permissions.ModelConfig Ctx} {where_ : Str}
  {model : Permissions.ResolvedModel Ctx}

/-- **A name from which the search finds no condition comes to none.** -/
theorem neverTests (h : Permissions.resolveModel config where_ = .ok model) {type name : Str}
    (hreaches : (likeOf config).reachesCondition type name = false) :
    NeverTests model type name := by
  obtain ⟨-, declared, hresolving⟩ := Permissions.resolveModel_ok h
  rintro store maxDepth object root hroot rfl
  obtain ⟨type, htype⟩ := Permissions.objectOf_type hroot
  have hname : Permissions.isName root.type = true := model.checked.type_isName _ (mem_of_get htype)
  obtain ⟨S, hmem, hclosed⟩ :=
    ModelLike.reachesCondition_false (named_likeOf hresolving) hname hreaches
  have hwithin : ∀ w : Permissions.Walk Ctx,
      Within S w ⟨⟨⟨root.type, root.id⟩, some root.data⟩, name, 0⟩ := fun _ _ _ => Or.inr hmem
  refine ⟨fun question c hcalls => ?_, fun subject passes => ?_⟩
  · suffices hc : Within S ⟨model, store, maxDepth, none, question⟩ c from
      hc.plain hresolving hclosed
    induction hcalls with
    | refl => exact hwithin _
    | tail _ hcall ih => exact ih.calls hresolving hclosed hcall
  · rw [Permissions.can_eq_canBy]
    refine Permissions.canBy_congr fun question who root' hroot' => ?_
    obtain rfl := Permissions.objectOf_unique hroot hroot'
    exact Permissions.Walk.holdsTesting_eq (fun hq hcall => hq.calls hresolving hclosed hcall)
      (fun c hq => hq.plain hresolving hclosed) (hwithin _)

/-- **An object of a type without a field to read is read off by nothing.** -/
theorem neverReads (h : Permissions.resolveModel config where_ = .ok model) {object : ObjectLike}
    {name : Str} (hfields : (likeOf config).fieldsOf object.type = []) :
    NeverReads model object.bare name := by
  obtain ⟨haccepted, declared, hresolving⟩ := Permissions.resolveModel_ok h
  intro store maxDepth ctx root hroot
  have hbare : root.type = object.type := by
    obtain ⟨hdata, htype, -⟩ := Permissions.objectOf_ok hroot
    obtain ⟨type, id, data⟩ := root
    cases hdata
    exact Value.str.inj htype.symm
  -- A call that asks a field is of the root, and the root's type has a field to be read.
  have hnever : ∀ question c type, Permissions.Walk.Known ⟨model, store, maxDepth, ctx, question⟩
      ⟨⟨root.type, root.id⟩, some root.data⟩ c → get model.types c.node.entity.type = some type →
      ¬ Permissions.AsksField type c.name := by
    intro question c type hknown htype hasks
    have hnode := hknown.asks htype hasks
    rw [hnode] at htype
    obtain ⟨def_, hdef, hof⟩ := hresolving.typeOf htype
    dsimp only at hdef hof
    rw [hbare] at hdef hof
    cases hasks with
    | relation hfield => exact fieldsOf_likeOf hdef hof hfield hfields
    | arrow _ _ _ hfield => exact fieldsOf_likeOf hdef hof hfield hfields
  refine ⟨fun question c type hcalls => hnever question c type
    (Permissions.Walk.Known.reached haccepted (Or.inl rfl) hcalls), fun subject field => ?_⟩
  rw [Permissions.can_eq_canBy]
  refine Permissions.canBy_congr fun question who root' hroot' => ?_
  obtain rfl := Permissions.objectOf_unique hroot hroot'
  exact Permissions.Walk.holdsBy_congr (fun hq hcall => hq.calls haccepted hcall)
    (fun c hq type htype hasks => absurd hasks (hnever question c type hq htype)) (Or.inl rfl)

end Missing

/-- **A `@permission` accepted has its `ctx`.** Of every model that resolving accepts: a name from
which the search finds no condition is answered without one; and of every field guarded over it,
whatever is asked and answered, `can()` is asked without a `ctx` only where its walk comes to no
condition, and of an object made of a type and an id alone only where it reads no field. -/
theorem permission_has_ctx {V E : Type} {config : Permissions.ModelConfig Ctx} {where_ : Str}
    {model : Permissions.ResolvedModel Ctx} (h : Permissions.resolveModel config where_ = .ok model) :
    (∀ type name, (likeOf config).reachesCondition type name = false → NeverTests model type name) ∧
    ∀ type field known wiring (resolvers : Resolvers V E), wiring.model = some (likeOf config) →
      applyField type field known wiring = .ok resolvers →
      ∀ run, (run = resolvers.resolve ∨ resolvers.subscribe = some run) →
      ∀ resolving log fresh user permission object ctx k,
        Trace (run resolving) log (.call (.check fresh user permission object ctx) k) →
        (ctx = none → NeverTests model object.type permission) ∧
        (object.data = none → NeverReads model object.bare permission) := by
  refine ⟨fun type name => neverTests h, ?_⟩
  intro type field known wiring resolvers hmodel hbuilt run hrun resolving log fresh user permission
    object ctx k htrace
  obtain ⟨use, check, hcheck, hfits⟩ := applyField_asks hbuilt hrun htrace
  obtain ⟨hcondition, hfields⟩ := permissionCheckOf_needs hcheck hmodel
  rw [hfits.name, hfits.type]
  refine ⟨fun hctx => neverTests h ?_, fun hdata => neverReads h ?_⟩
  · rw [← hcondition, ← hfits.ctx, hctx]
    rfl
  · obtain ⟨hheld, hload⟩ := hfits.bare hdata
    rw [hfits.type]
    exact hfields hheld hload

/-- A record and who views it, as it is written. -/
def recordConfig : Permissions.ModelConfig Unit :=
  .object (.array [.str (js "staff")]) <| .object [(js "record",
    .object [js "related", js "permits"]
      (.object [(js "viewers", .holders [.str (js "staff")])] (by decide))
      (.object [(js "view", .rules [.text (js "viewers")])] (by decide)))] (by decide)

/-- Ada asks for record `r1`, of which nothing more is known. -/
theorem permission_has_ctx_record : ∃ model, Permissions.resolveModel recordConfig
    (js "defineModel") =
    .ok model ∧ NeverTests model (js "record") (js "view") ∧
      NeverReads model (ObjectLike.bare ⟨js "record", js "r1", none⟩) (js "view") := by
  obtain ⟨model, hmodel⟩ : ∃ model, Permissions.resolveModel recordConfig (js "defineModel") =
    .ok model :=
    ⟨_, rfl⟩
  have hbuilt : applyField (V := Unit) (E := Unit) query recordField [js "staff"] recordWiring =
      .ok ⟨guarded .resolve recordRequirement, none⟩ := rfl
  have htrace : Trace (guarded (V := Unit) (E := Unit) .resolve recordRequirement askingRecord)
      [⟨.user, .ok (some ⟨js "staff", js "ada"⟩)⟩, ⟨.session, .ok (some ⟨0, js "ada"⟩)⟩,
        ⟨.now, (1000 : ℤ)⟩]
      (.call (.check false ⟨js "staff", js "ada"⟩ (js "view") ⟨js "record", js "r1", none⟩ none) _) :=
    .cons (.cons (.cons .nil))
  obtain ⟨htests, hreads⟩ := (permission_has_ctx hmodel).2 query recordField
    [js "staff"] recordWiring
    _ rfl hbuilt _ (Or.inl rfl) askingRecord _ _ _ _ _ _ _ htrace
  exact ⟨model, hmodel, htests rfl, hreads rfl⟩

end Janus.Graphql
