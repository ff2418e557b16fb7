import Janus.Permissions.Fields

/-!
# Permissions/Conditions — a walk that comes to no condition

Written once more with what runs a condition put in question (`holdsTesting`), the walk answers the
same whatever stands there, where none of the calls it may make has a rule under one
(`holdsTesting_eq`).
-/

namespace Janus.Permissions

open Js Insertion Relation

variable {Ctx : Type}

namespace Walk

section Testing

variable (w : Walk Ctx)
  (passes : (Ctx → Except Failure Bool) → ResolvedObjectType Ctx → Str → Except Failure Bool)
  (holds : Node → Str → ℕ → Except Failure Bool)

/-- `rule`, its condition run by `passes`. -/
def ruleTesting (type : ResolvedObjectType Ctx) (node : Node) (name : Str) (depth : ℕ)
    (rule : ResolvedRule Ctx) : Except Failure Bool := do
  let tested ← match rule.test with
    | some test => passes test type name
    | none => pure true
  if !tested then pure false
  else w.follow holds type node depth rule.ref

/-- `permission`, its conditions run by `passes`. -/
def permissionTesting (type : ResolvedObjectType Ctx) (node : Node) (name : Str) (depth : ℕ) :
    Except Failure Bool :=
  ((get type.permissions name).getD []).anyM (w.ruleTesting passes holds type node name depth)

/-- `body`, its conditions run by `passes`. -/
def bodyTesting (subject : Subject) (inner : Config → Except Failure Bool) (path : List Str)
    (c : Config) : Except Failure Bool :=
  if w.maxDepth < c.depth then
    throw <| .permissionDepth (js "can: checking " ++ w.question ++ js " crossed more than " ++
      js (toString w.maxDepth) ++ js " relations without an answer") w.question w.maxDepth
  else if nodeKey c.node.entity c.name ∈ path then pure false
  else
    match get w.model.types c.node.entity.type with
    | none => pure false
    | some type =>
      let holds node name depth := inner ⟨node, name, depth⟩
      if (get type.permissions c.name).isSome then
        w.permissionTesting passes holds type c.node c.name c.depth
      else w.relation holds subject type c.node c.name c.depth

/-- `holds`, its conditions run by `passes`. -/
def holdsTesting (subject : Subject) : ℕ → List Str → Config → Except Failure Bool
  | 0, _, _ => throw .outOfFuel
  | fuel + 1, path, c =>
    w.bodyTesting passes subject (holdsTesting subject fuel (c.onto path)) path c

end Testing

variable {w : Walk Ctx} {subject : Subject}
  {passes : (Ctx → Except Failure Bool) → ResolvedObjectType Ctx → Str → Except Failure Bool}

/-- **No rule of a call is under a condition.** -/
def Plain (w : Walk Ctx) (c : Config) : Prop :=
  ∀ type rules, get w.model.types c.node.entity.type = some type →
    get type.permissions c.name = some rules → ∀ rule ∈ rules, rule.test = none

/-- A plain call runs no condition. -/
theorem Plain.bodyTesting_eq {c : Config} (h : w.Plain c) (inner : Config → Except Failure Bool)
    (path : List Str) : w.bodyTesting passes subject inner path c =
    w.body subject inner path c := by
  unfold bodyTesting body
  cases htype : get w.model.types c.node.entity.type with
  | none => rfl
  | some type =>
    cases hrules : get type.permissions c.name with
    | none => simp only [permissionTesting, permission, hrules, Option.getD_none, List.anyM_nil]
    | some rules =>
      have hrule : ∀ (holds : Node → Str → ℕ → Except Failure Bool), ∀ rule ∈ rules,
          w.ruleTesting passes holds type c.node c.name c.depth rule =
            w.rule holds type c.node c.name c.depth rule := by
        intro holds rule hmem
        rw [ruleTesting, Walk.rule, tested, h type rules htype hrules rule hmem]
      simp only [permissionTesting, permission, hrules, Option.getD_some]
      rw [List.anyM_congr (hrule _)]

/-- **Whatever runs conditions, a walk of plain calls answers the same.** -/
theorem holdsTesting_eq {Q : Config → Prop} (hcalls : ∀ {c c'}, Q c → w.Calls c c' → Q c')
    (hplain : ∀ c, Q c → w.Plain c) {fuel : ℕ} {path : List Str} {c : Config} (h : Q c) :
    w.holdsTesting passes subject fuel path c =
      w.holds subject fuel path c.node c.name c.depth := by
  induction fuel generalizing path c with
  | zero => rfl
  | succ fuel ih =>
    rw [holdsTesting, (hplain c h).bodyTesting_eq, holds_succ]
    exact body_congr fun _ c' hcall => ih (hcalls h hcall)

end Walk

end Janus.Permissions
