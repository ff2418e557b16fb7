import Janus.Permissions.Ends

/-!
# Permissions/Fields — object data is asked only of the root

Of a model that resolving accepted, a call of the walk that reads a field is about the object the
question is about, with its data (`Known`): the check of the model covers every call a walk may make
(`Known.calls`).  To say that nothing else is evaluated, the walk is written once more with what
reads a field put in question (`holdsBy`): whatever stands there for any other object, `can()`
answers the same (`can_fields`).
-/

namespace Janus.Permissions

open Js Insertion Relation

variable {Ctx : Type}

/-- **A call that reads a field itself**: of a relation read from one, or of a rule through one. -/
inductive AsksField (type : ResolvedObjectType Ctx) : Str → Prop
  | relation {name field subject : Str}
      {lookup : Option (Str → Except Failure (Option (List Value)))}
      (h : get type.relations name = some (.fromField field subject lookup)) : AsksField type name
  | arrow {name relation target field subject : Str} {rules : List (ResolvedRule Ctx)}
      {rule : ResolvedRule Ctx} {lookup : Option (Str → Except Failure (Option (List Value)))}
      (hrules : get type.permissions name = some rules) (hrule : rule ∈ rules)
      (href : rule.ref = .arrow relation target)
      (h : get type.relations relation = some (.fromField field subject lookup)) :
      AsksField type name

namespace Walk

variable {w : Walk Ctx} {subject : Subject} {where_ : Str} {root : Node}

/-- No permission is a relation. -/
theorem relation_none {type : ResolvedObjectType Ctx} {k name : Str}
    {rules : List (ResolvedRule Ctx)} (htype : get w.model.types k = some type)
    (hrules : get type.permissions name = some rules) : get type.relations name = none :=
  w.model.checked.fresh _ (mem_of_get htype) _ (mem_of_get hrules)

theorem reads_of_asks {type : ResolvedObjectType Ctx} {k name : Str}
    (htype : get w.model.types k = some type) (h : AsksField type name) : Reads type name := by
  cases h with
  | relation h => exact .field h
  | arrow hrules hrule href h =>
    exact .arrow (relation_none htype hrules) hrules hrule href (.field h)

/-! ## Every call that reads a field is about the root -/

/-- A call about the root, or one that needs no field of its object. -/
def Known (w : Walk Ctx) (root : Node) (c : Config) : Prop :=
  c.node = root ∨ ∀ type, get w.model.types c.node.entity.type = some type → ¬ Reads type c.name

/-- An arrow reaches the types that its relation names. -/
theorem targets_type {type : ResolvedObjectType Ctx} {node node' : Node} {relation : Str}
    {nodes : List Node} (h : w.targets type node relation = .ok nodes) (hnode : node' ∈ nodes) :
    node'.entity.type ∈ reachedBy type relation := by
  rw [targets] at h
  rw [reachedBy]
  split at h
  case h_1 =>
    cases h
    cases hnode
  case h_2 field subjectType lookup hfield =>
    obtain ⟨id, -, h⟩ := Except.bind_ok.mp h
    split at h
    · cases h
      cases hnode
    · cases h
      rw [List.mem_singleton.mp hnode, hfield]
      exact List.mem_singleton_self _
  case h_3 holders hstored =>
    obtain ⟨entities, -, h⟩ := Except.bind_ok.mp h
    cases h
    obtain ⟨e, he, rfl⟩ := List.mem_map.mp hnode
    obtain ⟨holder, hholder, hadmits⟩ := List.any_eq_true.mp (List.mem_filter.mp he).2
    rw [hstored]
    cases holder with
    | set => cases hadmits
    | type t => exact List.mem_map.mpr ⟨.type t, hholder, of_decide_eq_true hadmits⟩

/-- **Whatever such a call calls is such a call.** -/
theorem Known.calls (haccepted : Accepted where_ w.model) {c c' : Config} (h : w.Known root c)
    (hcall : w.Calls c c') : w.Known root c' := by
  cases hcall with
  | name htype hrules hrule href =>
    refine h.imp id fun h type htype' hreads => ?_
    cases htype.symm.trans htype'
    exact h _ htype (.name (relation_none htype hrules) hrules hrule href hreads)
  | arrow _ htype hrules hrule href hnodes hnode =>
    exact Or.inr fun type htype' =>
      haccepted.arrow (mem_of_get htype) hrules hrule href (targets_type hnodes hnode) htype'
  | @set node name depth type holders sets set _ htype hrelation _ _ hadmits =>
    refine Or.inr fun target htarget => ?_
    obtain ⟨holder, hholder, hadmits⟩ := List.any_eq_true.mp hadmits
    cases holder with
    | type => cases hadmits
    | set t relation =>
      obtain ⟨rfl, rfl⟩ := of_decide_eq_true hadmits
      exact haccepted.set (mem_of_get htype) hrelation hholder htarget

/-- …and so is every call of a walk from the root. -/
theorem Known.reached (haccepted : Accepted where_ w.model) {c c' : Config} (h : w.Known root c)
    (hcalls : ReflTransGen w.Calls c c') : w.Known root c' := by
  induction hcalls with
  | refl => exact h
  | tail _ hcall ih => exact ih.calls haccepted hcall

/-- A call that needs no field of another object reads none. -/
theorem Known.asks {c : Config} (h : w.Known root c) {type : ResolvedObjectType Ctx}
    (htype : get w.model.types c.node.entity.type = some type) (hasks : AsksField type c.name) :
    c.node = root :=
  h.resolve_right fun h => h type htype (reads_of_asks htype hasks)

/-! ## The walk, its fields read by anything -/

section Fields

variable (w) (field : Node → Str → Str → Except Failure (Option Str))

/-- `targets`, its fields read by `field`. -/
def targetsBy (type : ResolvedObjectType Ctx) (node : Node) (relation : Str) :
    Except Failure (List Node) :=
  match get type.relations relation with
  | some (.fromField name subject _) => do
    match ← field node name (type.name ++ js "." ++ relation) with
    | none => pure []
    | some id => pure [⟨⟨subject, id⟩, none⟩]
  | _ => w.targets type node relation

section Step

variable (holds : Node → Str → ℕ → Except Failure Bool) (subject : Subject)

/-- `relation`, its fields read by `field`. -/
def relationBy (type : ResolvedObjectType Ctx) (node : Node) (name : Str) (depth : ℕ) :
    Except Failure Bool :=
  match get type.relations name with
  | some (.fromField read subjectType _) => do
    pure (isNamed subject subjectType (← field node read (type.name ++ js "." ++ name)))
  | _ => w.relation holds subject type node name depth

/-- `follow`, its fields read by `field`. -/
def followBy (type : ResolvedObjectType Ctx) (node : Node) (depth : ℕ) :
    RuleRef → Except Failure Bool
  | .name other => holds node other depth
  | .arrow relation target => do
    (← w.targetsBy field type node relation).anyM fun node => holds node target (depth + 1)

/-- `rule`, its fields read by `field`. -/
def ruleBy (type : ResolvedObjectType Ctx) (node : Node) (name : Str) (depth : ℕ)
    (rule : ResolvedRule Ctx) : Except Failure Bool := do
  if !(← w.tested rule type name) then pure false
  else w.followBy field holds type node depth rule.ref

/-- `permission`, its fields read by `field`. -/
def permissionBy (type : ResolvedObjectType Ctx) (node : Node) (name : Str) (depth : ℕ) :
    Except Failure Bool :=
  ((get type.permissions name).getD []).anyM (w.ruleBy field holds type node name depth)

end Step

/-- `body`, its fields read by `field`. -/
def bodyBy (subject : Subject) (inner : Config → Except Failure Bool) (path : List Str)
    (c : Config) : Except Failure Bool :=
  if w.maxDepth < c.depth then
    throw <| .permissionDepth (js "can: checking " ++ w.question ++ js " crossed more than " ++
      js (toString w.maxDepth) ++ js " relations without an answer") w.question w.maxDepth
  else if nodeKey c.node.entity c.name ∈ path then pure false
  else
    match get w.model.types c.node.entity.type with
    | none => pure false
    | some type =>
      let holds node name depth := inner ⟨node, name, depth⟩
      if (get type.permissions c.name).isSome then
        w.permissionBy field holds type c.node c.name c.depth
      else w.relationBy field holds subject type c.node c.name c.depth

/-- `holds`, its fields read by `field`. -/
def holdsBy (subject : Subject) : ℕ → List Str → Config → Except Failure Bool
  | 0, _, _ => throw .outOfFuel
  | fuel + 1, path, c => w.bodyBy field subject (holdsBy subject fuel (c.onto path)) path c

end Fields

variable {field : Node → Str → Str → Except Failure (Option Str)}

/-- **A call reads what it asks of a field, and nothing else.** -/
theorem bodyBy_eq {inner : Config → Except Failure Bool} {path : List Str} {c : Config}
    (h : ∀ type, get w.model.types c.node.entity.type = some type → AsksField type c.name →
      field c.node = fieldOf c.node) :
    w.bodyBy field subject inner path c = w.body subject inner path c := by
  obtain ⟨node, name, depth⟩ := c
  unfold bodyBy body
  dsimp only
  split
  · rfl
  split
  · rfl
  cases htype : get w.model.types node.entity.type with
  | none => rfl
  | some type =>
    replace h := h type htype
    dsimp only
    split
    case isTrue hpermission =>
      obtain ⟨rules, hrules⟩ := Option.isSome_iff_exists.mp hpermission
      rw [permission, permissionBy, hrules, Option.getD_some]
      refine List.anyM_congr fun r hr => bind_congr fun b => ?_
      split
      · rfl
      cases href : r.ref with
      | name other => rfl
      | arrow relation target =>
        have htargets : w.targetsBy field type node relation = w.targets type node relation := by
          rw [targetsBy]
          split
          case h_1 hfield =>
            rw [h (.arrow hrules hr href hfield)]
            unfold targets
            exact hfield ▸ rfl
          case h_2 => rfl
        rw [followBy, follow, htargets]
    case isFalse =>
      rw [relationBy]
      split
      case h_1 hfield => rw [relation, hfield, h (.relation hfield)]
      case h_2 => rfl

/-- **A walk whose calls read as `fieldOf` does what they ask of a field is the walk.** -/
theorem holdsBy_congr {Q : Config → Prop} (hcalls : ∀ {c c'}, Q c → w.Calls c c' → Q c')
    (hfield : ∀ c, Q c → ∀ type, get w.model.types c.node.entity.type = some type →
      AsksField type c.name → field c.node = fieldOf c.node)
    {fuel : ℕ} {path : List Str} {c : Config} (h : Q c) :
    w.holdsBy field subject fuel path c = w.holds subject fuel path c.node c.name c.depth := by
  induction fuel generalizing path c with
  | zero => rfl
  | succ fuel ih =>
    rw [holdsBy, bodyBy_eq (hfield c h), holds_succ]
    exact body_congr fun _ c' hcall => ih (hcalls h hcall)

/-- **What stands for `fieldOf` away from the root is never evaluated.** -/
theorem holdsBy_eq (haccepted : Accepted where_ w.model) (hfield : field root = fieldOf root)
    {fuel : ℕ} {path : List Str} {c : Config} (h : w.Known root c) :
    w.holdsBy field subject fuel path c = w.holds subject fuel path c.node c.name c.depth :=
  holdsBy_congr (fun h hcall => h.calls haccepted hcall)
    (fun c h type htype hasks => by rw [h.asks htype hasks, hfield]) h

end Walk

/-- **Object data is asked only of the root.** Of a model without loops the check of its data ends;
and of one it accepts, every call a walk may make that reads a field is about the very object the
question is about, with its data, and whatever stands for `fieldOf` on any other node, a thrown error
included, `can()` answers the same. -/
theorem can_fields {where_ : Str} {bound : BoundModel Ctx}
    (hloops : refuseLoops where_ bound.model.types = .ok ()) :
    refuseDataBeyondRoot where_ bound.model.types ≠ .error .outOfFuel ∧
    (refuseDataBeyondRoot where_ bound.model.types = .ok () →
      ∀ (subject object : Arg) (permission : Str) (ctx : Option Ctx) (root : ObjectArg),
        objectOf bound.model object (js "can") = .ok root →
        (∀ question (c : Walk.Config) type,
          ReflTransGen (Walk.Calls ⟨bound.model, bound.store, bound.maxDepth, ctx, question⟩)
            ⟨⟨⟨root.type, root.id⟩, some root.data⟩, permission, 0⟩ c →
          get bound.model.types c.node.entity.type = some type → AsksField type c.name →
          c.node = ⟨⟨root.type, root.id⟩, some root.data⟩) ∧
        ∀ field : Node → Str → Str → Except Failure (Option Str),
          field ⟨⟨root.type, root.id⟩, some root.data⟩ =
            fieldOf ⟨⟨root.type, root.id⟩, some root.data⟩ →
          canBy bound (fun w who c => w.holdsBy field who (walkFuel w.model w.maxDepth) [] c)
            subject permission object ctx = can bound subject permission object ctx) := by
  refine ⟨refuseDataBeyondRoot_ne_outOfFuel hloops,
    fun hdata subject object permission ctx root hroot => ⟨?_, fun field hfield => ?_⟩⟩
  · intro question c type hcalls htype hasks
    exact (Walk.Known.reached ⟨hloops, hdata⟩ (Or.inl rfl) hcalls).asks htype hasks
  · rw [can_eq_canBy]
    refine canBy_congr fun question who root' hroot' => ?_
    obtain rfl := objectOf_unique hroot hroot'
    exact Walk.holdsBy_eq ⟨hloops, hdata⟩ hfield (Or.inl rfl)

/-- Notes in folders: edited by who wrote them, and by who views their folder. -/
def notes : ResolvedModel Unit where
  subjects := [js "staff"]
  types := [
    (js "folder", {
      name := js "folder"
      relations := [(js "viewers", .stored [.type (js "staff"), .set (js "folder") (js "viewers")])]
      permissions := [] }),
    (js "note", {
      name := js "note"
      relations := [(js "author", .fromField (js "authorId") (js "staff") none),
        (js "folder", .stored [.type (js "folder")])]
      permissions := [(js "edit",
        [⟨.name (js "author"), none⟩, ⟨.arrow (js "folder") (js "viewers"), none⟩])] })]
  subject_isName := staff_isName
  checked := ⟨by decide, by decide, by decide, by decide, by decide, by decide, by decide⟩

/-- Fields, read of what carries its data alone. -/
def fieldPassed (node : Node) (field what : Str) : Except Failure (Option Str) :=
  if node.data.isSome then fieldOf node field what else throw <| .thrown (js "asked")

/-- A note nobody wrote, in a folder of its reader's. -/
def noteTuples : List RelationTuple := [
  ⟨⟨js "note", js "n1"⟩, js "folder", .entity ⟨js "folder", js "f1"⟩⟩,
  ⟨⟨js "folder", js "f1"⟩, js "viewers", .entity ⟨js "staff", js "ada"⟩⟩]

/-- Whether Ada edits it is answered by its own field, and no other is asked. -/
theorem can_fields_notes :
    canBy ⟨notes, ofTuples noteTuples, 10⟩
      (fun w who c => w.holdsBy fieldPassed who (walkFuel w.model w.maxDepth) [] c)
      (.record (row (js "staff") (js "ada"))) (js "edit")
      (.record (.of [(js "type", .str (js "note")), (js "id", .str (js "n1")),
        (js "authorId", .null)] false)) none = .ok true := by
  have hloops : refuseLoops (js "permissions") notes.types = .ok () := by decide
  have hdata : refuseDataBeyondRoot (js "permissions") notes.types = .ok () := by decide
  rw [((@can_fields _ _ ⟨notes, ofTuples noteTuples, 10⟩ hloops).2 hdata _ _ (js "edit") none _
    (objectOf_of rfl rfl rfl rfl)).2 fieldPassed rfl]
  decide

end Janus.Permissions
