import Janus.Permissions.Accepted
import Janus.Permissions.Decides

/-!
# Permissions/Ends — `can()` always ends

One call of the walk (`body`) asks only what it calls (`body_congr`): the same object by another
name, or, one relation deeper, what an arrow or a subject set reaches.  Of a model without loops no
chain of calls goes on for ever, whatever a store answers (`calls_wellFounded`): the depth is
bounded, and names of one object are in order.  So the walk's equations have one solution
(`walk_unique`), and it is what `can()` answers (`can_ends`).
-/

namespace Janus.Permissions

open Js Insertion Search Relation

variable {Ctx : Type}

namespace Walk

/-- One call: the object, the name, and how many relations were crossed. -/
structure Config where
  node : Node
  name : Str
  depth : ℕ

variable (w : Walk Ctx) (subject : Subject)

/-- One call of `holds`, its own calls answered by `inner`. -/
def body (inner : Config → Except Failure Bool) (path : List Str) (c : Config) :
    Except Failure Bool :=
  if w.maxDepth < c.depth then
    throw <| .permissionDepth (js "can: checking " ++ w.question ++ js " crossed more than " ++
      js (toString w.maxDepth) ++ js " relations without an answer") w.question w.maxDepth
  else if nodeKey c.node.entity c.name ∈ path then pure false
  else
    match get w.model.types c.node.entity.type with
    | none => pure false
    | some type =>
      let holds node name depth := inner ⟨node, name, depth⟩
      if (get type.permissions c.name).isSome then w.permission holds type c.node c.name c.depth
      else w.relation holds subject type c.node c.name c.depth

/-- The path of the calls a call makes. -/
def Config.onto (c : Config) (path : List Str) : List Str := nodeKey c.node.entity c.name :: path

/-- **`holds` is its body, called again.** -/
theorem holds_succ (fuel : ℕ) (path : List Str) (c : Config) :
    w.holds subject (fuel + 1) path c.node c.name c.depth =
      w.body subject (fun c' => w.holds subject fuel (c.onto path) c'.node c'.name c'.depth) path c :=
  rfl

/-- **A call another may make**, by what the model declares and the store answers. -/
inductive Calls : Config → Config → Prop
  | name {node : Node} {name other : Str} {depth : ℕ} {type : ResolvedObjectType Ctx}
      {rules : List (ResolvedRule Ctx)} {rule : ResolvedRule Ctx}
      (htype : get w.model.types node.entity.type = some type)
      (hrules : get type.permissions name = some rules) (hrule : rule ∈ rules)
      (href : rule.ref = .name other) : Calls ⟨node, name, depth⟩ ⟨node, other, depth⟩
  | arrow {node node' : Node} {name relation target : Str} {depth : ℕ}
      {type : ResolvedObjectType Ctx} {rules : List (ResolvedRule Ctx)} {rule : ResolvedRule Ctx}
      {nodes : List Node} (hdepth : depth ≤ w.maxDepth)
      (htype : get w.model.types node.entity.type = some type)
      (hrules : get type.permissions name = some rules) (hrule : rule ∈ rules)
      (href : rule.ref = .arrow relation target)
      (hnodes : w.targets type node relation = .ok nodes) (hnode : node' ∈ nodes) :
      Calls ⟨node, name, depth⟩ ⟨node', target, depth + 1⟩
  | set {node : Node} {name : Str} {depth : ℕ} {type : ResolvedObjectType Ctx}
      {holders : List Holder} {sets : List SubjectSet} {set : SubjectSet}
      (hdepth : depth ≤ w.maxDepth) (htype : get w.model.types node.entity.type = some type)
      (hrelation : get type.relations name = some (.stored holders))
      (hsets : w.store.findSubjectSets node.entity name = .ok sets) (hset : set ∈ sets)
      (hadmits : admits holders (.set set) = true) :
      Calls ⟨node, name, depth⟩ ⟨⟨set.toEntity, none⟩, set.relation, depth + 1⟩

variable {w subject}

/-- **A call depends on the calls it may make alone.** -/
theorem body_congr {inner inner' : Config → Except Failure Bool} {path : List Str} {c : Config}
    (h : nodeKey c.node.entity c.name ∉ path → ∀ c', w.Calls c c' → inner c' = inner' c') :
    w.body subject inner path c = w.body subject inner' path c := by
  obtain ⟨node, name, depth⟩ := c
  unfold body
  dsimp only
  split
  · rfl
  have hdepth : depth ≤ w.maxDepth := Nat.le_of_not_lt ‹_›
  split
  · rfl
  replace h := h ‹_›
  split
  · rfl
  case h_2 type htype =>
    split
    case isTrue hpermission =>
      obtain ⟨rules, hrules⟩ := Option.isSome_iff_exists.mp hpermission
      rw [permission, permission, hrules, Option.getD_some]
      refine List.anyM_congr fun r hr => bind_congr fun b => ?_
      split
      · rfl
      cases href : r.ref with
      | name other => exact h _ (.name htype hrules hr href)
      | arrow relation target =>
        rw [follow, follow]
        cases hnodes : w.targets type node relation with
        | error e => rfl
        | ok nodes =>
          exact List.anyM_congr fun node' hnode =>
            h _ (.arrow hdepth htype hrules hr href hnodes hnode)
    case isFalse =>
      rw [relation, relation]
      cases hrelation : get type.relations name with
      | none => rfl
      | some r =>
        cases r with
        | fromField => rfl
        | stored holders =>
          refine bind_congr fun b => ?_
          split
          · rfl
          cases hsets : w.store.findSubjectSets node.entity name with
          | error e => rfl
          | ok sets =>
            refine List.anyM_congr fun set hset => ?_
            split
            case isTrue hadmits => exact h _ (.set hdepth htype hrelation hsets hset hadmits)
            case isFalse => rfl

/-! ## No chain of calls goes on for ever -/

/-- From a name of a type to one a rule of it refers to. -/
def NameStep (types : List (Str × ResolvedObjectType Ctx)) (b a : Str × Str) : Prop :=
  a.1 = b.1 ∧ ∃ type, get types a.1 = some type ∧ RefersTo type a.2 b.2

/-- A name that is no permission refers to nothing. -/
theorem nameStep_acc_of_none {types : List (Str × ResolvedObjectType Ctx)} {k : Str × Str}
    (h : ∀ type, get types k.1 = some type → get type.permissions k.2 = none) :
    Acc (NameStep types) k := by
  refine ⟨_, fun b hb => ?_⟩
  obtain ⟨-, type, htype, rules, hrules, -⟩ := hb
  rw [h type htype] at hrules
  cases hrules

/-- **Names of one object are in order**, in a model without loops. -/
theorem nameStep_wellFounded {where_ : Str} {types : List (Str × ResolvedObjectType Ctx)}
    (h : refuseLoops where_ types = .ok ()) : WellFounded (NameStep types) := by
  refine ⟨fun ⟨t, p⟩ => ?_⟩
  cases htype : get types t with
  | none => exact nameStep_acc_of_none fun type h => by rw [htype] at h; cases h
  | some type =>
    induction refuseLoops_acc h (mem_of_get htype) p with
    | intro p _ ih =>
      refine ⟨_, ?_⟩
      rintro ⟨t', q⟩ ⟨rfl, type', htype', hrefers⟩
      cases htype.symm.trans htype'
      by_cases hq : (get type.permissions q).isSome
      · exact ih q (mem_successors.mpr ⟨hrefers, hq⟩)
      · refine nameStep_acc_of_none fun type' htype' => ?_
        cases htype.symm.trans htype'
        exact Option.not_isSome_iff_eq_none.mp hq

/-- **The recursion of the walk is well founded**: a relation crossed raises the depth, which is
bounded, and a name of the same object comes later in their order. -/
theorem calls_wellFounded {where_ : Str} (h : refuseLoops where_ w.model.types = .ok ()) :
    WellFounded fun c' c => w.Calls c c' := by
  let measure (c : Config) : ℕ × Str × Str :=
    (w.maxDepth + 1 - c.depth, c.node.entity.type, c.name)
  refine Subrelation.wf (r := InvImage (Prod.Lex (· < ·) (NameStep w.model.types)) measure) ?_
    (InvImage.wf measure (WellFounded.prod_lex Nat.lt_wfRel.wf (nameStep_wellFounded h)))
  intro c' c hcall
  cases hcall with
  | name htype hrules hrule href =>
    exact Prod.Lex.right _ ⟨rfl, _, htype, _, hrules, _, hrule, href⟩
  | arrow hdepth => exact Prod.Lex.left _ _ (by dsimp only; omega)
  | set hdepth => exact Prod.Lex.left _ _ (by dsimp only; omega)

/-! ## The walk's equations -/

/-- What a walk answers, however it is computed: a solution of its equations. -/
def Solves (w : Walk Ctx) (subject : Subject) (H : List Str → Config → Except Failure Bool) :
    Prop :=
  ∀ path c, H path c = w.body subject (H (c.onto path)) path c

/-- **The walk's equations have exactly one solution.** -/
theorem walk_unique {where_ : Str} (h : refuseLoops where_ w.model.types = .ok ())
    (subject : Subject) : ∃! H, w.Solves subject H := by
  classical
  have hwf := calls_wellFounded h
  let F (c : Config) (rec : ∀ c', w.Calls c c' → List Str → Except Failure Bool) (path : List Str) :
      Except Failure Bool :=
    w.body subject (fun c' => if hc : w.Calls c c' then rec c' hc (c.onto path)
      else throw .outOfFuel) path c
  refine ⟨fun path c => hwf.fix F c path, fun path c => ?_, fun H hH => ?_⟩
  · dsimp only
    rw [hwf.fix_eq]
    exact body_congr fun _ c' hc => dif_pos hc
  · funext path c
    induction c using hwf.induction generalizing path with
    | _ c ih =>
      rw [hH, hwf.fix_eq]
      refine body_congr fun _ c' hc => ?_
      rw [ih c' hc]
      simp only [F, dif_pos hc]

/-! ## `can()` is their solution -/

/-- Calls enough from here: whole levels below, and on this one the names not yet on the path. -/
def callsLeft (w : Walk Ctx) (path : List Str) (c : Config) : ℕ :=
  (w.maxDepth + 1 - c.depth) * (mostPermissions w.model + 2) +
    (permissionNames w.model c.node.entity).countP fun n => decide (nodeKey c.node.entity n ∉ path)

/-- **Every call leaves fewer.** -/
theorem Calls.left {path : List Str} {c c' : Config} (hcall : w.Calls c c')
    (hpath : nodeKey c.node.entity c.name ∉ path) :
    w.callsLeft (c.onto path) c' < w.callsLeft path c := by
  have hdeeper : ∀ node name depth node' name', depth ≤ w.maxDepth →
      w.callsLeft (Config.onto ⟨node, name, depth⟩ path) ⟨node', name', depth + 1⟩ <
        w.callsLeft path ⟨node, name, depth⟩ := by
    intro node name depth node' name' hdepth
    have hlevel : w.maxDepth + 1 - depth = (w.maxDepth + 1 - (depth + 1)) + 1 := by omega
    have hle : (permissionNames w.model node'.entity).countP
        (fun n => decide (nodeKey node'.entity n ∉ Config.onto ⟨node, name, depth⟩ path)) ≤
        mostPermissions w.model :=
      List.countP_le_length.trans (length_permissionNames_le ..)
    simp only [callsLeft]
    rw [hlevel, Nat.succ_mul]
    omega
  cases hcall with
  | arrow hdepth => exact hdeeper _ _ _ _ _ hdepth
  | set hdepth => exact hdeeper _ _ _ _ _ hdepth
  | @name node name other depth type rules rule htype hrules hrule href =>
    have hmem : name ∈ permissionNames w.model node.entity := by
      rw [permissionNames, htype]
      exact List.mem_map.mpr ⟨_, mem_of_get hrules, rfl⟩
    have hlt : (permissionNames w.model node.entity).countP
        (fun n => decide (nodeKey node.entity n ∉ nodeKey node.entity name :: path)) <
        (permissionNames w.model node.entity).countP
          (fun n => decide (nodeKey node.entity n ∉ path)) :=
      List.countP_lt_countP (a := name) (by simp) hmem (by simpa using hpath) (by simp)
    exact Nat.add_lt_add_left hlt _

/-- **With calls enough, `holds` is a solution of its equations.** -/
theorem holds_solution {H : List Str → Config → Except Failure Bool} (hH : w.Solves subject H)
    {fuel : ℕ} {path : List Str} {c : Config} (hfuel : w.callsLeft path c < fuel) :
    w.holds subject fuel path c.node c.name c.depth = H path c := by
  induction fuel generalizing path c with
  | zero => omega
  | succ fuel ih =>
    rw [holds_succ, hH path c]
    refine body_congr fun hpath c' hcall => ih ?_
    have := hcall.left hpath
    omega

end Walk

/-- `can()`, whatever answers its walk. -/
def canBy (bound : BoundModel Ctx) (answer : Walk Ctx → Subject → Walk.Config → Except Failure Bool)
    (subject : Arg) (permission : Str) (object : Arg) (ctx : Option Ctx) : Except Failure Bool :=
  if isAnonymous subject then pure false
  else do
    let root ← objectOf bound.model object (js "can")
    let type ← typeOf bound.model root.type (js "can")
    if !type.declares permission then
      throw <| .typeError <| js "can: \"" ++ permission ++
        js "\" is not a relation or a permission of " ++ type.name
    else do
      let who ← subjectOf bound.model subject (js "can")
      if !isStorable root.id || !isStorable who.id then pure false
      else
        answer ⟨bound.model, bound.store, bound.maxDepth, ctx,
        type.name ++ js "#" ++ permission⟩ who
          ⟨⟨⟨root.type, root.id⟩, some root.data⟩, permission, 0⟩

theorem can_eq_canBy (bound : BoundModel Ctx) :
    can bound = canBy bound fun w subject c =>
      w.holds subject (walkFuel w.model w.maxDepth) [] c.node c.name c.depth :=
  rfl

/-- Two walks that answer alike are one `can()`. -/
theorem canBy_congr {bound : BoundModel Ctx}
    {answer answer' : Walk Ctx → Subject → Walk.Config → Except Failure Bool} {subject : Arg}
    {permission : Str} {object : Arg} {ctx : Option Ctx}
    (h : ∀ question who root, objectOf bound.model object (js "can") = .ok root →
      answer ⟨bound.model, bound.store, bound.maxDepth, ctx, question⟩ who
        ⟨⟨⟨root.type, root.id⟩, some root.data⟩, permission, 0⟩ =
      answer' ⟨bound.model, bound.store, bound.maxDepth, ctx, question⟩ who
        ⟨⟨⟨root.type, root.id⟩, some root.data⟩, permission, 0⟩) :
    canBy bound answer subject permission object ctx =
      canBy bound answer' subject permission object ctx := by
  rw [canBy, canBy]
  split
  · rfl
  cases hroot : objectOf bound.model object (js "can") with
  | error e => rfl
  | ok root =>
    rw [Except.ok_bind, Except.ok_bind]
    refine bind_congr fun type => ?_
    split
    · rfl
    refine bind_congr fun who => ?_
    split
    · rfl
    · exact h _ who root hroot

/-- The fuel `can()` gives its walk is enough. -/
theorem callsLeft_lt_walkFuel (w : Walk Ctx) (node : Node) (name : Str) :
    w.callsLeft [] ⟨node, name, 0⟩ < walkFuel w.model w.maxDepth := by
  have hlevel : walkFuel w.model w.maxDepth =
      (w.maxDepth + 1 - 0) * (mostPermissions w.model + 2) + (mostPermissions w.model + 2) :=
    Nat.succ_mul ..
  rw [hlevel]
  exact Nat.add_lt_add_left (Nat.lt_of_le_of_lt (List.countP_le_length.trans
    (length_permissionNames_le ..)) (Nat.lt_add_of_pos_right Nat.two_pos)) _

/-- **`can()` always ends.** `refuseLoops` ends, and refuses exactly the models in which a permission
reaches itself through names of the same object alone; of a model it accepts, no walk over any store
goes on for ever, so that the walk's equations have exactly one solution; and it is what `can()`
answers. -/
theorem can_ends (where_ : Str) :
    (∀ types : List (Str × ResolvedObjectType Ctx), refuseLoops where_ types ≠ .error .outOfFuel ∧
      (refuseLoops where_ types = .ok () ↔ ∀ e ∈ types, ∀ p, ¬ TransGen (RefersTo e.2) p p)) ∧
    ∀ bound : BoundModel Ctx, refuseLoops where_ bound.model.types = .ok () →
      (∀ w : Walk Ctx, w.model = bound.model →
        (WellFounded fun c' c => w.Calls c c') ∧ ∀ subject, ∃! H, w.Solves subject H) ∧
      ∀ H : Walk Ctx → Subject → List Str → Walk.Config → Except Failure Bool,
        (∀ w : Walk Ctx, ∀ subject, w.model = bound.model → w.Solves subject (H w subject)) →
        can bound = canBy bound fun w subject => H w subject [] := by
  refine ⟨fun types => ?_, fun bound h => ⟨?_, fun H hH => ?_⟩⟩
  · refine ⟨refuseLoops_ne_outOfFuel where_ types, ?_⟩
    simp only [refuseLoops_ok_iff, loop_iff]
  · rintro w hw
    rw [← hw] at h
    exact ⟨Walk.calls_wellFounded h, Walk.walk_unique h⟩
  · funext subject permission object ctx
    rw [can_eq_canBy]
    exact canBy_congr fun question who root _ =>
      Walk.holds_solution (hH _ who rfl) (callsLeft_lt_walkFuel _ _ _)

/-- The equations of the clinic's walks have a solution, and by it Ada views the record through the
loop of her team, and Bo does not. -/
theorem can_ends_clinic :
    ∃ H : Walk Unit → Subject → List Str → Walk.Config → Except Failure Bool,
      (∀ (w : Walk Unit) subject, w.model = clinic → w.Solves subject (H w subject)) ∧
      ∀ who ∈ [js "ada", js "bo"],
        canBy ⟨clinic, ofTuples teamTuples, 10⟩ (fun w subject => H w subject [])
          (.record (row (js "staff") who)) (js "view") (.record (row (js "record") (js "r1"))) none =
            .ok (decide (who = js "ada")) := by
  obtain ⟨hwalk, hcan⟩ := (can_ends (js "permissions")).2 ⟨clinic, ofTuples teamTuples,
    10⟩ (by decide)
  classical
  choose H hH _ using fun w hw => fun subject => (hwalk w hw).2 subject
  have hsolves : ∀ (w : Walk Unit) subject, w.model = clinic → w.Solves subject
      (if hw : w.model = clinic then H w hw subject else fun _ _ => pure false) := by
    intro w subject hw
    rw [dif_pos hw]
    exact hH w hw subject
  refine ⟨fun w subject => if hw : w.model = clinic then H w hw subject else fun _ _ => pure false,
    hsolves, ?_⟩
  rw [← hcan _ hsolves]
  decide

end Janus.Permissions
