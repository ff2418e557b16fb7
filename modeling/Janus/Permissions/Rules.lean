import Janus.Permissions.Can
import Janus.Permissions.Reverse

/-!
# Permissions/Rules — a rule, as written and as resolved

A rule is a name, an arrow, or either under `when()`: resolving parses its text once and checks what
it names.  `resolveRule` puts the test of a `when` in place of the one below it, so that of a rule
under several the outermost is kept and no other (`resolveRule_ok`).  Both walks then grant what its
core grants and its outermost test passes; they ask every test written exactly where none but the
outermost could fail (`resolveRule_keeps_iff`).
-/

namespace Janus.Permissions

open Js Insertion Rounds

variable {Ctx : Type}

/-! ## Written -/

/-- A rule, as a model holds it: a text, a rule under `when()`, or anything else.  A test is `none`
when it is no function. -/
inductive RuleDef (Ctx : Type) where
  | text (rule : Str)
  | when (rule : RuleDef Ctx) (test : Option (Ctx → Except Failure Bool))
  | other

namespace RuleDef

/-- The name or arrow at its core. -/
def core : RuleDef Ctx → RuleDef Ctx
  | when rule _ => rule.core
  | rule => rule

/-- The tests written around it, outermost first. -/
def tests : RuleDef Ctx → List (Ctx → Except Failure Bool)
  | when rule test => test.toList ++ rule.tests
  | _ => []

theorem core_eq (rule : RuleDef Ctx) : (∃ value, rule.core = text value) ∨ rule.core = other := by
  induction rule with
  | text value => exact Or.inl ⟨value, rfl⟩
  | when rule test ih => exact ih
  | other => exact Or.inr rfl

end RuleDef

/-! ## Resolved -/

/-- `text`, cut at its first `->`. -/
def cutArrow : Str → Option (Str × Str)
  | u :: v :: rest =>
    if u = 45 ∧ v = 62 then some ([], rest)
    else (cutArrow (v :: rest)).map fun cut => (u :: cut.1, cut.2)
  | _ => none

/-- What a rule of the type `self` is resolved with. -/
structure RuleContext (Ctx : Type) where
  own : List Str
  relations : List (Str × ResolvedRelation)
  typeNames : List Str
  namesOf : Str → List Str
  self : Str

section Resolve

variable (where_ : Str) (c : RuleContext Ctx) (here : Str)

/-- A refusal, naming where it is. -/
def refuse (message : Str) : Failure := .typeError (where_ ++ js ": " ++ message)

/-- The types an arrow through a relation may reach: `none` for a subject set. -/
def ResolvedRelation.targets : ResolvedRelation → List (Option Str)
  | .fromField _ subject _ => [some subject]
  | .stored holders => holders.map fun
    | .type type => some type
    | .set .. => none

/-- An arrow follows object types only, to a name each of them declares. -/
def checkTarget (value relation target : Str) (type : Option Str) : Except Failure Unit :=
  match type.filter (· ∈ c.typeNames) with
  | none =>
    throw <| refuse where_ <| here ++ js ": \"" ++ value ++ js "\" goes through \"" ++ relation ++
      js "\", which can hold " ++ type.elim (js "a subject set") (js "a " ++ ·) ++
      js "; an arrow follows object types only"
  | some type =>
    if target ∉ c.namesOf type then
      throw <| refuse where_ <| here ++ js ": \"" ++ value ++ js "\" names \"" ++ target ++
        js "\", which " ++ type ++ js " does not declare"
    else pure ()

/-- What a name or an arrow refers to. -/
def resolveRef (value : Str) : Except Failure RuleRef :=
  match cutArrow value with
  | none =>
    if value ∉ c.own then
      throw <| refuse where_ <| here ++ js ": \"" ++ value ++
        js "\" is not a relation or a permission of " ++ c.self
    else pure (.name value)
  | some (relation, target) =>
    match get c.relations relation with
    | none =>
      throw <| refuse where_ <| here ++ js ": \"" ++ value ++ js "\" goes through \"" ++ relation ++
        js "\", which is not a relation of " ++ c.self
    | some through => do
      through.targets.forM (checkTarget where_ c here value relation target)
      pure (.arrow relation target)

/-- One rule of a permission, resolved. -/
def resolveRule : RuleDef Ctx → Except Failure (ResolvedRule Ctx)
  | .when rule test =>
    match test with
    | none => throw <| refuse where_ <| here ++ js ": when() takes a function as its test"
    | some test => do
      let inner ← resolveRule rule
      -- The rule's own test, if it has one, is overwritten.
      pure { inner with test := some test }
  | .text value => do
    let ref ← resolveRef where_ c here value
    pure ⟨ref, none⟩
  | .other => throw <| refuse where_ <| here ++ js ": a rule is a name, an arrow, or when()"

variable {where_ c here}

/-- **Resolving keeps the core and the outermost test.** -/
theorem resolveRule_ok {rule : RuleDef Ctx} {resolved : ResolvedRule Ctx}
    (h : resolveRule where_ c here rule = .ok resolved) :
    resolveRule where_ c here rule.core = .ok ⟨resolved.ref, none⟩ ∧
      resolved.test = rule.tests.head? := by
  induction rule generalizing resolved with
  | text value =>
    obtain ⟨ref, href, h⟩ := Except.bind_ok.mp h
    cases h
    exact ⟨Except.bind_ok.mpr ⟨ref, href, rfl⟩, rfl⟩
  | when rule test ih =>
    cases test with
    | none => cases h
    | some test =>
      obtain ⟨inner, hinner, h⟩ := Except.bind_ok.mp h
      cases h
      exact ⟨(ih hinner).1, rfl⟩
  | other => cases h

/-- What a rule accepted refers to, its own type declares. -/
theorem resolveRef_relation {value relation target : Str}
    (h : resolveRef where_ c here value = .ok (.arrow relation target)) :
    ∃ through, get c.relations relation = some through ∧
      ∀ type ∈ through.targets, ∃ t ∈ c.typeNames, type = some t ∧ target ∈ c.namesOf t := by
  rw [resolveRef] at h
  split at h
  · split at h <;> cases h
  split at h
  · cases h
  case h_2 through hthrough =>
    obtain ⟨_, hall, h⟩ := Except.bind_ok.mp h
    cases h
    refine ⟨through, hthrough, fun type htype => ?_⟩
    have hcheck := List.forM_ok.mp hall type htype
    rw [checkTarget] at hcheck
    split at hcheck
    · cases hcheck
    case h_2 t ht =>
      obtain ⟨rfl, hmem⟩ := Option.filter_eq_some_iff.mp ht
      refine ⟨t, of_decide_eq_true hmem, rfl, ?_⟩
      by_contra hnot
      rw [if_pos hnot] at hcheck
      cases hcheck

end Resolve

/-! ## What a resolved rule grants -/

theorem Walk.passes_iff {w : Walk Ctx} {test : Ctx → Except Failure Bool}
    {type : ResolvedObjectType Ctx} {name : Str} :
    w.passes test type name = .ok true ↔ ∃ ctx ∈ w.ctx, test ctx = .ok true := by
  rw [Walk.passes]
  cases w.ctx <;> simp [throw, throwThe, MonadExceptOf.throw]

theorem Reverse.passes_iff {r : Reverse Ctx} {test : Ctx → Except Failure Bool}
    {type : ResolvedObjectType Ctx} {name : Str} :
    r.passes test type name = .ok true ↔ ∃ ctx ∈ r.ctx, test ctx = .ok true := by
  rw [Reverse.passes]
  cases r.ctx <;> simp [throw, throwThe, MonadExceptOf.throw]

/-- **`can()` grants a rule its reference grants and its test passes.** -/
theorem Walk.rule_true {w : Walk Ctx} {holds : Node → Str → ℕ → Except Failure Bool}
    {type : ResolvedObjectType Ctx} {node : Node} {name : Str} {depth : ℕ}
    {rule : ResolvedRule Ctx} :
    w.rule holds type node name depth rule = .ok true ↔
      w.rule holds type node name depth ⟨rule.ref, none⟩ = .ok true ∧
        ∀ test ∈ rule.test, w.passes test type name = .ok true := by
  obtain ⟨ref, test⟩ := rule
  cases test with
  | none => simp
  | some test =>
    simp only [Option.mem_def, Option.some.injEq, forall_eq']
    rw [Walk.rule, Walk.tested]
    dsimp only
    cases w.passes test type name with
    | error e => simp [bind, Except.bind]
    | ok b =>
      cases b
      · simp [bind, Except.bind, pure, Except.pure]
      · exact (and_iff_left rfl).symm

/-- What a rule adds to what `list()` found. -/
def Reverse.FindsBy (r : Reverse Ctx)
    (reach : Str × Str → Round Str Str → Except Failure (List Str × Round Str Str))
    (type : ResolvedObjectType Ctx) (name : Str) (found : List Str) (round : Round Str Str)
    (rule : ResolvedRule Ctx) (id : Str) : Prop :=
  id ∉ found ∧ ∃ found' round', r.rule reach type name (found, round) rule = .ok (found', round') ∧
    id ∈ found'

/-- **…and `list()` finds by a rule what its reference does, when its test passes.** -/
theorem Reverse.findsBy_iff {r : Reverse Ctx}
    {reach : Str × Str → Round Str Str → Except Failure (List Str × Round Str Str)}
    {type : ResolvedObjectType Ctx} {name : Str} {found : List Str} {round : Round Str Str}
    {rule : ResolvedRule Ctx} {id : Str} :
    r.FindsBy reach type name found round rule id ↔
      r.FindsBy reach type name found round ⟨rule.ref, none⟩ id ∧
        ∀ test ∈ rule.test, r.passes test type name = .ok true := by
  obtain ⟨ref, test⟩ := rule
  cases test with
  | none => simp
  | some test =>
    simp only [Option.mem_def, Option.some.injEq, forall_eq', Reverse.FindsBy]
    rw [Reverse.rule, Reverse.tested]
    dsimp only
    cases r.passes test type name with
    | error e => simp [bind, Except.bind]
    | ok b =>
      cases b
      · simp only [bind, Except.bind, pure, Except.pure, Except.ok.injEq, Prod.mk.injEq,
          Bool.not_false, if_true, Bool.false_eq_true, and_false, iff_false]
        rintro ⟨hnot, _, _, ⟨rfl, -⟩, hmem⟩
        exact hnot hmem
      · exact (and_iff_left rfl).symm

/-! ## What a written rule grants -/

/-- A rule keeps every test written: both walks grant it where they grant its core and every test
passes. -/
structure KeepsTests (relations : List (Str × ResolvedRelation)) (rule : RuleDef Ctx)
    (core resolved : ResolvedRule Ctx) : Prop where
  can (w : Walk Ctx) (holds : Node → Str → ℕ → Except Failure Bool)
    (type : ResolvedObjectType Ctx) (node : Node) (name : Str) (depth : ℕ) :
    type.relations = relations →
      (w.rule holds type node name depth resolved = .ok true ↔
        w.rule holds type node name depth core = .ok true ∧
          ∀ test ∈ rule.tests, w.passes test type name = .ok true)
  list (r : Reverse Ctx)
    (reach : Str × Str → Round Str Str → Except Failure (List Str × Round Str Str))
    (type : ResolvedObjectType Ctx) (name : Str) (found : List Str) (round : Round Str Str)
    (id : Str) : type.relations = relations →
      (r.FindsBy reach type name found round resolved id ↔
        r.FindsBy reach type name found round core id ∧
          ∀ test ∈ rule.tests, r.passes test type name = .ok true)

/-- What passes the outermost test passes every test. -/
def OutermostDecides (rule : RuleDef Ctx) : Prop :=
  ∀ ctx, (∀ test ∈ rule.tests.head?, test ctx = .ok true) →
    ∀ test ∈ rule.tests, test ctx = .ok true

/-- …as of a rule under one `when` at most. -/
theorem outermostDecides_of_length {rule : RuleDef Ctx} (h : rule.tests.length ≤ 1) :
    OutermostDecides rule := by
  intro ctx hhead test htest
  match htests : rule.tests with
  | [] => simp [htests] at htest
  | [outer] =>
    rw [htests] at hhead htest
    obtain rfl := List.mem_singleton.mp htest
    exact hhead _ rfl
  | _ :: _ :: _ => simp [htests] at h

theorem OutermostDecides.forall {rule : RuleDef Ctx} (h : OutermostDecides rule)
    {passed : Option Ctx} :
    (∀ test ∈ rule.tests.head?, ∃ ctx ∈ passed, test ctx = .ok true) ↔
      ∀ test ∈ rule.tests, ∃ ctx ∈ passed, test ctx = .ok true := by
  refine ⟨fun houter test htest => ?_, fun hall test htest => hall test (List.mem_of_mem_head? htest)⟩
  obtain ⟨outer, rest, hrule⟩ := List.exists_cons_of_ne_nil (List.ne_nil_of_mem htest)
  obtain ⟨ctx, hctx, hpasses⟩ := houter outer (by rw [hrule]; rfl)
  refine ⟨ctx, hctx, h ctx (fun other hother => ?_) test htest⟩
  rw [hrule] at hother
  obtain rfl := Option.some.inj hother
  exact hpasses

/-- A question with nothing in the model: only what the rule refers to is asked. -/
def bareWalk (ctx : Ctx) (tuples : List RelationTuple) : Walk Ctx :=
  ⟨⟨[], [], by simp, ⟨by simp, by simp, by simp, by simp, by simp, by simp, by simp⟩⟩,
    ofTuples tuples, 0, some ctx, []⟩

/-- **A core may be granted**, through whatever relation it goes. -/
theorem exists_core_granted {where_ here : Str} {c : RuleContext Ctx}
    (hstored : ∀ e ∈ c.relations, e.2 ≠ .stored []) {value : Str} {ref : RuleRef}
    (h : resolveRef where_ c here value = .ok ref) (ctx : Ctx) :
    ∃ tuples node, (bareWalk ctx tuples).rule (fun _ _ _ => pure true)
      ⟨c.self, c.relations, []⟩ node [] 0 ⟨ref, none⟩ = .ok true := by
  cases ref with
  | name other => exact ⟨[], ⟨⟨[], []⟩, none⟩, rfl⟩
  | arrow relation target =>
    obtain ⟨through, hthrough, htargets⟩ := resolveRef_relation h
    have hfollow : ∀ {tuples node nodes}, (bareWalk ctx tuples).targets
      ⟨c.self, c.relations, []⟩ node
        relation = .ok nodes → nodes ≠ [] → (bareWalk ctx tuples).rule (fun _ _ _ => pure true)
        ⟨c.self, c.relations, []⟩ node [] 0 ⟨.arrow relation target, none⟩ = .ok true := by
      intro tuples node nodes hnodes hne
      rw [Walk.rule, Walk.tested, Walk.follow, hnodes]
      obtain ⟨first, rest, rfl⟩ := List.exists_cons_of_ne_nil hne
      rfl
    cases through with
    | fromField field subject lookup =>
      refine ⟨[], ⟨⟨[], []⟩, some (.of [(field, .str [])] false)⟩,
        hfollow ?_ (List.cons_ne_nil ⟨⟨subject, []⟩, none⟩ [])⟩
      have hfield : (Record.of [(field, .str [])] false).field field = .str [] := by
        simp [Record.of]
      simp only [Walk.targets, hthrough, fieldOf, hfield]
      rfl
    | stored holders =>
      have hne : holders ≠ [] := fun hnil => hstored _ (mem_of_get hthrough) (by rw [hnil])
      obtain ⟨holder, rest, rfl⟩ := List.exists_cons_of_ne_nil hne
      obtain ⟨t, -, ht, -⟩ := htargets _ List.mem_cons_self
      cases holder with
      | set type relation => cases ht
      | type type =>
        refine ⟨[⟨⟨[], []⟩, relation, .entity ⟨type, []⟩⟩], ⟨⟨[], []⟩, none⟩,
          hfollow ?_ (List.cons_ne_nil ⟨⟨type, []⟩, none⟩ [])⟩
        simp [Walk.targets, hthrough, bareWalk, ofTuples, admits]

/-- **A resolved rule keeps every test exactly when its outermost decides.** Resolving accepts the
core alone; and for every store, subject, object, data and `ctx`, whatever the names it asks answer,
both walks grant the rule where they grant its core and every test written around it passes, if and
only if whatever `ctx` passes the outermost test passes all of them. -/
theorem resolveRule_keeps_iff {where_ here : Str} {c : RuleContext Ctx}
    (hstored : ∀ e ∈ c.relations, e.2 ≠ .stored []) {rule : RuleDef Ctx}
    {resolved : ResolvedRule Ctx} (h : resolveRule where_ c here rule = .ok resolved) :
    ∃ core, resolveRule where_ c here rule.core = .ok core ∧
      (KeepsTests c.relations rule core resolved ↔ OutermostDecides rule) := by
  obtain ⟨hcore, htest⟩ := resolveRule_ok h
  refine ⟨_, hcore, ?_, ?_⟩
  · intro hkeeps ctx houter test hmem
    obtain ⟨value, href⟩ : ∃ value, resolveRef where_ c here value = .ok resolved.ref := by
      obtain ⟨value, htext⟩ | hother := rule.core_eq
      · rw [htext] at hcore
        obtain ⟨ref, href, hcore⟩ := Except.bind_ok.mp hcore
        cases hcore
        exact ⟨value, href⟩
      · rw [hother] at hcore
        cases hcore
    obtain ⟨tuples, node, hgranted⟩ := exists_core_granted hstored href ctx
    have hboth := (hkeeps.can _ _ _ node [] 0 rfl).mp
      (Walk.rule_true.mpr ⟨hgranted, by rw [htest]; exact houter⟩)
    exact hboth.2 test hmem
  · intro hdecides
    refine ⟨fun w holds type node name depth _ => ?_, fun r reach type name found round id _ => ?_⟩
    · rw [Walk.rule_true, htest]
      simp only [Walk.passes_iff, hdecides.forall]
    · rw [Reverse.findsBy_iff, htest]
      simp only [Reverse.passes_iff, hdecides.forall]

/-! ## A ward -/

/-- Whether who asks is on shift, and whether they are in the building. -/
structure Presence where
  onShift : Bool
  inside : Bool

/-- What a record's rules are resolved with. -/
def recordContext : RuleContext Presence where
  own := [js "doctors", js "edit"]
  relations := [(js "doctors", .stored [.type (js "staff")])]
  typeNames := [js "record"]
  namesOf _ := [js "doctors", js "edit"]
  self := js "record"

/-- Doctors, on shift. -/
def onShiftRule : RuleDef Presence := .when (.text (js "doctors"))
    (some fun ctx => pure ctx.onShift)

/-- Doctors, on shift and in the building. -/
def insideRule : RuleDef Presence := .when onShiftRule (some fun ctx => pure ctx.inside)

/-- A rule under one `when` keeps its test. -/
theorem resolveRule_keeps_onShift :
    ∃ core resolved, resolveRule (js "defineModel") recordContext
    (js "types.record.permits.edit[0]")
      onShiftRule = .ok resolved ∧ KeepsTests recordContext.relations onShiftRule core
      resolved := by
  have hstored : ∀ e ∈ recordContext.relations, e.2 ≠ .stored [] := by simp [recordContext]
  have hrule : resolveRule (js "defineModel") recordContext (js "types.record.permits.edit[0]")
      onShiftRule = .ok ⟨.name (js "doctors"), some fun ctx => pure ctx.onShift⟩ := rfl
  obtain ⟨core, -, hkeeps⟩ := resolveRule_keeps_iff hstored hrule
  exact ⟨core, _, hrule, hkeeps.mpr (outermostDecides_of_length (by decide))⟩

/-- What `edit` was resolved to. -/
def ward : ResolvedModel Presence where
  subjects := [js "staff"]
  types := [(js "record", {
    name := js "record"
    relations := recordContext.relations
    permissions := [(js "edit", [⟨.name (js "doctors"), some fun ctx => pure ctx.inside⟩])] })]
  subject_isName := staff_isName
  checked := ⟨by decide, by decide, by decide, by decide, by decide, by decide, by decide⟩

/-- **A doctor off shift edits**: the inner `when` is lost, and `can()` grants what it would not. -/
theorem resolveRule_drops_onShift :
    resolveRule (js "defineModel") recordContext (js "types.record.permits.edit[0]") insideRule =
      .ok ⟨.name (js "doctors"), some fun ctx => pure ctx.inside⟩ ∧
    can ⟨ward, ofTuples [⟨⟨js "record", js "r1"⟩, js "doctors", .entity ⟨js "staff", js "ada"⟩⟩], 10⟩
      (.record (.of [(js "type", .str (js "staff")), (js "id", .str (js "ada"))] false)) (js "edit")
      (.record (.of [(js "type", .str (js "record")), (js "id", .str (js "r1"))] false))
      (some ⟨false, true⟩) = .ok true ∧
    ¬ KeepsTests recordContext.relations insideRule ⟨.name (js "doctors"), none⟩
      ⟨.name (js "doctors"), some fun ctx => pure ctx.inside⟩ := by
  refine ⟨rfl, by decide, fun hkeeps => ?_⟩
  have hall := ((hkeeps.can (bareWalk ⟨false, true⟩ []) (fun _ _ _ => pure true)
    ⟨js "record", recordContext.relations, []⟩ ⟨⟨[], []⟩, none⟩ [] 0 rfl).mp rfl).2
  exact absurd (hall _ (List.mem_cons_of_mem _ List.mem_cons_self)) nofun

end Janus.Permissions
