import Janus.Permissions.Can
import Janus.Permissions.Derivation
import Janus.Machinery.Outcome

/-!
# Permissions/Decides — `can()` decides the least fixpoint

One step of the walk answers `true` at a base or through an edge (`relation_true`, `rule_true`), and
`false` only when there is no base and every edge was answered `false` (`relation_false`,
`permission_false`).  The rest is `Machinery/Cut`: cutting a goal already on the path loses nothing.
-/

namespace Janus.Permissions

open Js Insertion

variable {Ctx : Type} {w : Walk Ctx} {q : Situation Ctx}

/-- The walk asks of this situation: its model, its `ctx`, and a store that keeps its tuples. -/
structure Walk.Asks (w : Walk Ctx) (q : Situation Ctx) : Prop where
  model : q.model = w.model
  ctx : q.ctx = w.ctx
  keeps : Keeps w.store q.tuples

/-- The data a node carries is its object's. -/
def Node.Agrees (q : Situation Ctx) (node : Node) : Prop :=
  ∀ data, node.data = some data → q.fields node.entity = some data

theorem agrees_none (e : Entity) : Node.Agrees q ⟨e, none⟩ := nofun

/-! ## What one question answers -/

theorem fieldOf_ok {node : Node} {field what : Str} {r : Option Str} (hn : node.Agrees q)
    (h : fieldOf node field what = .ok r) (id : Str) :
    r = some id ↔ Carries q node.entity field id := by
  rw [fieldOf] at h
  split at h
  case h_1 => cases h
  case h_2 data hdata =>
    have hfields := hn data hdata
    have hcarries : Carries q node.entity field id ↔
        data.field field = .str id ∧ isStorable id = true := by
      simp [Carries, hfields]
    rw [hcarries]
    split at h
    case h_1 hv => simp [← Except.pure_ok.mp h, hv]
    case h_2 value hv =>
      rw [← Except.pure_ok.mp h, hv]
      split
      · simp only [Option.some.injEq, Value.str.injEq]
        exact ⟨fun e => ⟨e, e ▸ ‹_›⟩, And.left⟩
      · simp only [reduceCtorEq, Value.str.injEq, false_iff, not_and]
        exact fun e => e ▸ ‹_›
    case h_3 => cases h
    case h_4 => cases h

theorem tested_ok (hq : w.Asks q) {rule : ResolvedRule Ctx} {type : ResolvedObjectType Ctx}
    {name : Str} {b : Bool} (h : w.tested rule type name = .ok b) :
    b = true ↔ Grants q rule := by
  rw [Walk.tested] at h
  split at h
  case h_1 test htest =>
    rw [Walk.passes] at h
    split at h
    case h_1 ctx hctx =>
      have : q.ctx = some ctx := hq.ctx.trans hctx
      simp [Grants, htest, this, h]
    case h_2 => cases h
  case h_2 htest => simp [Grants, htest, ← Except.pure_ok.mp h]

theorem targets_ok (hq : w.Asks q) {type : ResolvedObjectType Ctx} {node : Node}
    {relation : Str} {nodes : List Node} (ht : get q.model.types node.entity.type = some type)
    (hn : node.Agrees q) (h : w.targets type node relation = .ok nodes) (e : Entity) :
    (⟨e, none⟩ : Node) ∈ nodes ↔ Related q node.entity relation e := by
  have hrel : ∀ r, RelationOf q node.entity relation r ↔ get type.relations relation = some r :=
    fun r => by simp [RelationOf, ht]
  rw [Walk.targets] at h
  split at h
  case h_1 hnone =>
    rw [← Except.pure_ok.mp h]
    refine ⟨nofun, fun h => ?_⟩
    cases h with
    | tuple h _ _ => rw [hrel, hnone] at h; cases h
    | field h _ => rw [hrel, hnone] at h; cases h
  case h_2 field subject lookup hsome =>
    obtain ⟨r, hr, h⟩ := Except.bind_ok.mp h
    have hcarries := fieldOf_ok hn hr
    have hall : Related q node.entity relation e ↔ ∃ id, r = some id ∧ e = ⟨subject, id⟩ := by
      constructor
      · intro h
        cases h with
        | tuple h _ _ => rw [hrel, hsome] at h; cases h
        | field h hc =>
          rw [hrel, hsome] at h
          cases h
          exact ⟨_, (hcarries _).mpr hc, rfl⟩
      · rintro ⟨id, hid, rfl⟩
        exact .field ((hrel _).mpr hsome) ((hcarries id).mp hid)
    rw [hall]
    cases r with
    | none => simp [← Except.pure_ok.mp h]
    | some id => simp [← Except.pure_ok.mp h]
  case h_3 holders hsome =>
    obtain ⟨entities, hents, h⟩ := Except.bind_ok.mp h
    rw [← Except.pure_ok.mp h]
    have hmem := hq.keeps.findEntities hents e
    constructor
    · intro hm
      obtain ⟨e', he', heq⟩ := List.mem_map.mp hm
      cases heq
      obtain ⟨he', ha⟩ := List.mem_filter.mp he'
      exact .tuple ((hrel _).mpr hsome) ha (hmem.mp he')
    · intro h
      cases h with
      | tuple h ha hin =>
        rw [hrel, hsome] at h
        cases h
        exact List.mem_map.mpr ⟨e, List.mem_filter.mpr ⟨hmem.mpr hin, ha⟩, rfl⟩
      | field h _ => rw [hrel, hsome] at h; cases h

theorem targets_data {type : ResolvedObjectType Ctx} {node node' : Node}
    {relation : Str} {nodes : List Node} (h : w.targets type node relation = .ok nodes)
    (hm : node' ∈ nodes) : node'.data = none := by
  rw [Walk.targets] at h
  split at h
  case h_1 => rw [← Except.pure_ok.mp h] at hm; cases hm
  case h_2 =>
    obtain ⟨r, _, h⟩ := Except.bind_ok.mp h
    split at h
    · rw [← Except.pure_ok.mp h] at hm; cases hm
    · rw [← Except.pure_ok.mp h, List.mem_singleton] at hm
      exact hm ▸ rfl
  case h_3 =>
    obtain ⟨_, _, h⟩ := Except.bind_ok.mp h
    rw [← Except.pure_ok.mp h] at hm
    obtain ⟨_, _, rfl⟩ := List.mem_map.mp hm
    rfl

theorem isNamed_iff {subject : Subject} {subjectType : Str} {id : Option Str} :
    Walk.isNamed subject subjectType id = true ↔
      ∃ i, id = some i ∧ subject = .entity ⟨subjectType, i⟩ := by
  cases id <;> rcases subject with ⟨_, _⟩ | _ <;> simp [Walk.isNamed]

theorem direct_ok (hq : w.Asks q) {holders : List Holder} {node : Node} {name : Str} {b : Bool}
    (h : w.direct q.subject holders node name = .ok b) :
    b = true ↔ admits holders q.subject = true ∧ ⟨node.entity, name, q.subject⟩ ∈ q.tuples := by
  rw [Walk.direct] at h
  split at h
  case isTrue ha => rw [hq.keeps.has h, and_iff_right ha]
  case isFalse ha => simp [ha, ← Except.pure_ok.mp h]

/-! ## What one step answers -/

section Step

variable {inner : Node → Str → ℕ → Except Failure Bool} {type : ResolvedObjectType Ctx}
  {node : Node} {name : Str} {depth : ℕ}

/-- `inner` answered on a goal this one leads to. -/
def Answered (q : Situation Ctx) (inner : Node → Str → ℕ → Except Failure Bool) (b : Goal)
    (answer : Bool) : Prop :=
  ∃ node depth, node.Agrees q ∧ node.entity = b.1 ∧ inner node b.2 depth = .ok answer

/-- …at this depth. -/
def AnsweredAt (q : Situation Ctx) (inner : Node → Str → ℕ → Except Failure Bool) (depth : ℕ)
    (b : Goal) (answer : Bool) : Prop :=
  ∃ node, node.Agrees q ∧ node.entity = b.1 ∧ inner node b.2 depth = .ok answer

theorem relation_true (hq : w.Asks q) (ht : get q.model.types node.entity.type = some type)
    (hn : node.Agrees q) (h : w.relation inner q.subject type node name depth = .ok true) :
    Base q (node.entity, name) ∨
      ∃ b, Crosses q (node.entity, name) b ∧ AnsweredAt q inner (depth + 1) b true := by
  have hrel : ∀ {r}, get type.relations name = some r → RelationOf q node.entity name r :=
    fun hr => ⟨type, ht, hr⟩
  rw [Walk.relation] at h
  split at h
  case h_1 => cases Except.pure_ok.mp h
  case h_2 field subjectType lookup hr =>
    obtain ⟨id, hid, h⟩ := Except.bind_ok.mp h
    obtain ⟨i, hi, hs⟩ := isNamed_iff.mp (Except.pure_ok.mp h)
    exact Or.inl (.field (hrel hr) ((fieldOf_ok hn hid i).mp hi) hs)
  case h_3 holders hr =>
    obtain ⟨direct, hdirect, h⟩ := Except.bind_ok.mp h
    cases direct with
    | true =>
      obtain ⟨ha, hin⟩ := (direct_ok hq hdirect).mp rfl
      exact Or.inl (.tuple (hrel hr) ha hin)
    | false =>
      obtain ⟨sets, hsets, h⟩ := Except.bind_ok.mp h
      obtain ⟨s, hs, h⟩ := List.anyM_ok_true h
      split at h
      case isTrue ha =>
        exact Or.inr ⟨_, .set (hrel hr) ha ((hq.keeps.findSubjectSets hsets s).mp hs),
          _, agrees_none _, rfl, h⟩
      case isFalse => cases Except.pure_ok.mp h

theorem relation_false (hq : w.Asks q) (ht : get q.model.types node.entity.type = some type)
    (hp : get type.permissions name = none) (hn : node.Agrees q)
    (h : w.relation inner q.subject type node name depth = .ok false) :
    ¬ Base q (node.entity, name) ∧
      ∀ b, Edge q (node.entity, name) b → Answered q inner b false := by
  have hrel : ∀ {r}, RelationOf q node.entity name r → get type.relations name = some r := by
    rintro r ⟨type', ht', hr⟩
    rw [ht] at ht'
    cases ht'
    exact hr
  have hrules : ∀ {rules}, ¬ RulesOf q node.entity name rules := by
    rintro rules ⟨type', ht', hr⟩
    rw [ht] at ht'
    cases ht'
    rw [hp] at hr
    cases hr
  rw [Walk.relation] at h
  refine ⟨fun hb => ?_, fun b he => ?_⟩
  · cases hb with
    | tuple hr ha hin =>
      simp only [hrel hr] at h
      obtain ⟨direct, hdirect, h⟩ := Except.bind_ok.mp h
      obtain rfl := (direct_ok hq hdirect).mpr ⟨ha, hin⟩
      cases Except.pure_ok.mp h
    | field hr hc hs =>
      simp only [hrel hr] at h
      obtain ⟨id, hid, h⟩ := Except.bind_ok.mp h
      rw [isNamed_iff.mpr ⟨_, (fieldOf_ok hn hid _).mpr hc, hs⟩] at h
      cases Except.pure_ok.mp h
  · cases he with
    | set hr ha hin =>
      simp only [hrel hr] at h
      obtain ⟨direct, _, h⟩ := Except.bind_ok.mp h
      split at h
      case isTrue => cases Except.pure_ok.mp h
      case isFalse =>
        obtain ⟨sets, hsets, h⟩ := Except.bind_ok.mp h
        have h := List.anyM_ok_false h _ ((hq.keeps.findSubjectSets hsets _).mpr hin)
        rw [if_pos ha] at h
        exact ⟨_, _, agrees_none _, rfl, h⟩
    | name hr _ _ _ => exact absurd hr hrules
    | arrow hr _ _ _ _ => exact absurd hr hrules

theorem permission_true (hq : w.Asks q) (ht : get q.model.types node.entity.type = some type)
    (hn : node.Agrees q) (h : w.permission inner type node name depth = .ok true) :
    ∃ b, Names q (node.entity, name) b ∧ AnsweredAt q inner depth b true ∨
      Crosses q (node.entity, name) b ∧ AnsweredAt q inner (depth + 1) b true := by
  obtain ⟨rule, hrule, h⟩ := List.anyM_ok_true h
  obtain ⟨rules, hrules⟩ : ∃ rules, get type.permissions name = some rules := by
    cases hg : get type.permissions name with
    | none => simp [hg] at hrule
    | some rules => exact ⟨rules, rfl⟩
  rw [hrules] at hrule
  have hof : RulesOf q node.entity name rules := ⟨type, ht, hrules⟩
  obtain ⟨passed, hpassed, h⟩ := Except.bind_ok.mp h
  have hgrants := tested_ok hq hpassed
  split at h
  case isTrue => cases Except.pure_ok.mp h
  case isFalse hnot =>
    have hg := hgrants.mp (by simpa using hnot)
    cases href : rule.ref with
    | name other =>
      rw [href] at h
      exact ⟨_, Or.inl ⟨.name hof hrule hg href, _, hn, rfl, h⟩⟩
    | arrow relation target =>
      rw [href] at h
      obtain ⟨nodes, hnodes, h⟩ := Except.bind_ok.mp h
      obtain ⟨node', hnode', h⟩ := List.anyM_ok_true h
      have hdata := targets_data hnodes hnode'
      obtain ⟨e, _⟩ := node'
      obtain rfl : _ = none := hdata
      exact ⟨_, Or.inr ⟨.arrow hof hrule hg href ((targets_ok hq ht hn hnodes _).mp hnode'),
        _, agrees_none _, rfl, h⟩⟩

theorem permission_false (hq : w.Asks q) (ht : get q.model.types node.entity.type = some type)
    (hp : (get type.permissions name).isSome) (hn : node.Agrees q)
    (h : w.permission inner type node name depth = .ok false) :
    ¬ Base q (node.entity, name) ∧
      ∀ b, Edge q (node.entity, name) b → Answered q inner b false := by
  obtain ⟨rules, hrules⟩ := Option.isSome_iff_exists.mp hp
  have hrel : ∀ {r}, ¬ RelationOf q node.entity name r := by
    rintro r ⟨type', ht', hr⟩
    rw [ht] at ht'
    cases ht'
    have := not_both q ht hr
    rw [hrules] at this
    cases this
  have hof : ∀ {rules' : List (ResolvedRule Ctx)} {rule : ResolvedRule Ctx},
      RulesOf q node.entity name rules' → rule ∈ rules' → Grants q rule →
      w.follow inner type node depth rule.ref = .ok false := by
    rintro rules' rule ⟨type', ht', hr⟩ hm hg
    rw [ht] at ht'
    cases ht'
    rw [hrules] at hr
    cases hr
    have h := List.anyM_ok_false h rule (by simpa [hrules] using hm)
    obtain ⟨passed, hpassed, h⟩ := Except.bind_ok.mp h
    obtain rfl := (tested_ok hq hpassed).mpr hg
    exact h
  refine ⟨fun hb => ?_, fun b he => ?_⟩
  · cases hb with
    | tuple hr _ _ => exact hrel hr
    | field hr _ _ => exact hrel hr
  · cases he with
    | set hr _ _ => exact absurd hr hrel
    | name hr hm hg href =>
      have h := hof hr hm hg
      rw [href] at h
      exact ⟨_, _, hn, rfl, h⟩
    | arrow hr hm hg href hrelated =>
      have h := hof hr hm hg
      rw [href] at h
      obtain ⟨nodes, hnodes, h⟩ := Except.bind_ok.mp h
      have h := List.anyM_ok_false h _ ((targets_ok hq ht hn hnodes _).mpr hrelated)
      exact ⟨_, _, agrees_none _, rfl, h⟩

end Step

/-! ## What a walk answers -/

/-- One call of the walk that answered: past its depth and its path, a step. -/
theorem holds_succ_ok {fuel : ℕ} {path : List Str} {subject : Subject} {node : Node} {name : Str}
    {depth : ℕ} {b : Bool} (h : w.holds subject (fuel + 1) path node name depth = .ok b) :
    b = false ∧ nodeKey node.entity name ∈ path ∨
      nodeKey node.entity name ∉ path ∧
        (b = false ∧ get w.model.types node.entity.type = none ∨
          ∃ type, get w.model.types node.entity.type = some type ∧
            let inner := w.holds subject fuel (nodeKey node.entity name :: path)
            ((get type.permissions name).isSome ∧
                w.permission inner type node name depth = .ok b ∨
              get type.permissions name = none ∧
                w.relation inner subject type node name depth = .ok b)) := by
  rw [Walk.holds] at h
  split at h
  · cases h
  dsimp only at h
  split at h
  case isTrue hpath => exact Or.inl ⟨(Except.pure_ok.mp h).symm, hpath⟩
  case isFalse hpath =>
    refine Or.inr ⟨hpath, ?_⟩
    split at h
    case h_1 hnone => exact Or.inl ⟨(Except.pure_ok.mp h).symm, hnone⟩
    case h_2 type ht =>
      refine Or.inr ⟨type, ht, ?_⟩
      split at h
      case isTrue hp => exact Or.inl ⟨hp, h⟩
      case isFalse hp => exact Or.inr ⟨by simpa using hp, h⟩

theorem holds_depth {subject : Subject} {fuel : ℕ} {path : List Str} {node : Node} {name : Str}
    {depth : ℕ} {b : Bool} (h : w.holds subject fuel path node name depth = .ok b) :
    depth ≤ w.maxDepth := by
  cases fuel with
  | zero => cases h
  | succ fuel =>
    rw [Walk.holds] at h
    split at h
    · cases h
    · exact not_lt.mp ‹_›

/-- **The walk grants only what is derived**, by crossing no more relations than it had left. -/
theorem holds_within (hq : w.Asks q) {fuel : ℕ} {path : List Str} {node : Node} {name : Str}
    {depth : ℕ} (hn : node.Agrees q)
    (h : w.holds q.subject fuel path node name depth = .ok true) :
    Cut.Within (Base q) (Names q) (Crosses q) (w.maxDepth - depth) (node.entity, name) := by
  induction fuel generalizing path node name depth with
  | zero => cases h
  | succ fuel ih =>
    rcases holds_succ_ok h with ⟨hb, _⟩ | ⟨_, ⟨hb, _⟩ | ⟨type, ht, h⟩⟩
    · cases hb
    · cases hb
    have ht : get q.model.types node.entity.type = some type := hq.model ▸ ht
    have hcross : ∀ {b}, Crosses q (node.entity, name) b →
        AnsweredAt q (w.holds q.subject fuel (nodeKey node.entity name :: path))
        (depth + 1) b true →
        Cut.Within (Base q) (Names q) (Crosses q) (w.maxDepth - depth) (node.entity, name) := by
      rintro b he ⟨node', hn', heq, h⟩
      have hb := ih hn' h
      rw [heq] at hb
      have hdepth := holds_depth h
      rw [show w.maxDepth - depth = w.maxDepth - (depth + 1) + 1 by omega]
      exact .of_cross he hb
    rcases h with ⟨_, h⟩ | ⟨_, h⟩
    · obtain ⟨b, ⟨he, node', hn', heq, h⟩ | ⟨he, hanswered⟩⟩ := permission_true hq ht hn h
      · have hb := ih hn' h
        rw [heq] at hb
        exact .of_flat he hb
      · exact hcross he hanswered
    · obtain hb | ⟨b, he, hanswered⟩ := relation_true hq ht hn h
      · exact .of_base hb
      · exact hcross he hanswered

theorem holds_true (hq : w.Asks q) {fuel : ℕ} {path : List Str} {node : Node} {name : Str}
    {depth : ℕ} (hn : node.Agrees q)
    (h : w.holds q.subject fuel path node name depth = .ok true) :
    Cut.Derives (Base q) (Edge q) (node.entity, name) :=
  (holds_within hq hn h).derives.mono (fun _ => id) fun _ _ => (edge_iff q).mpr

/-- **The walk denies only what has no derivation off its path.** -/
theorem holds_false (hq : w.Asks q) {fuel : ℕ} {goals : List Goal} {node : Node} {name : Str}
    {depth : ℕ} (hn : node.Agrees q) (hgoals : ∀ a ∈ goals, Declared q a)
    (h : w.holds q.subject fuel (goals.map fun a => nodeKey a.1 a.2) node name depth = .ok false) :
    ¬ Cut.Avoiding (Base q) (Edge q) goals (node.entity, name) := by
  induction fuel generalizing goals node name depth with
  | zero => cases h
  | succ fuel ih =>
    intro hav
    have hdecl : Declared q (node.entity, name) := by
      cases hav with
      | base _ hb => exact hb.declared
      | step _ he _ => exact he.declared
    rcases holds_succ_ok h with ⟨_, hpath⟩ | ⟨_, ⟨_, hnone⟩ | ⟨type, ht, h⟩⟩
    · obtain ⟨a, ha, hkey⟩ := List.mem_map.mp hpath
      obtain rfl := nodeKey_declared q (hgoals a ha) hdecl hkey
      exact hav.notMem ha
    · obtain ⟨type, ht, _⟩ := hdecl
      rw [← hq.model, ht] at hnone
      cases hnone
    have ht : get q.model.types node.entity.type = some type := hq.model ▸ ht
    obtain ⟨hbase, hedge⟩ : ¬ Base q (node.entity, name) ∧ ∀ b, Edge q (node.entity, name) b →
        Answered q (w.holds q.subject fuel (nodeKey node.entity name ::
          goals.map fun a => nodeKey a.1 a.2)) b false :=
      h.elim (fun h => permission_false hq ht h.1 hn h.2) fun h => relation_false hq ht h.1 hn h.2
    cases hav with
    | base _ hb => exact hbase hb
    | @step _ _ b _ he hav =>
      obtain ⟨node', _, hn', heq, h⟩ := hedge b he
      have hnot := ih hn' (List.forall_mem_cons.mpr ⟨hdecl, hgoals⟩) h
      rw [heq] at hnot
      exact hnot hav

/-- **The walk decides**: whatever it answers, and whatever it was cut at, is what is derived. -/
theorem holds_iff (hq : w.Asks q) {fuel : ℕ} {node : Node} {name : Str} {depth : ℕ} {b : Bool}
    (hn : node.Agrees q) (h : w.holds q.subject fuel [] node name depth = .ok b) :
    b = true ↔ Holds q node.entity name := by
  rw [holds_iff_derives]
  cases b with
  | true => exact iff_of_true rfl (holds_true hq hn h)
  | false =>
    have hgoals : ∀ a ∈ ([] : List Goal), Declared q a := by simp
    exact iff_of_false Bool.false_ne_true fun hd =>
      holds_false hq hn hgoals h (Cut.derives_iff_avoiding.mp hd)

/-- A permission of one rule, a name of the same object untested, is that name. -/
theorem holds_alias {subject : Subject} {fuel : ℕ} {path : List Str} {node : Node}
    {name other : Str} {depth : ℕ} {type : ResolvedObjectType Ctx}
    (hd : depth ≤ w.maxDepth) (hpath : nodeKey node.entity name ∉ path)
    (ht : get w.model.types node.entity.type = some type)
    (hp : get type.permissions name = some [⟨.name other, none⟩]) :
    w.holds subject (fuel + 1) path node name depth =
      w.holds subject fuel (nodeKey node.entity name :: path) node other depth := by
  rw [Walk.holds, if_neg (Nat.not_lt.mpr hd)]
  dsimp only
  rw [if_neg hpath, ht]
  dsimp only
  rw [hp, Walk.permission, hp, if_pos Option.isSome_some]
  have hrule : ∀ inner, w.rule inner type node name depth ⟨.name other, none⟩ =
      inner node other depth := fun _ => rfl
  rw [Option.getD_some, List.anyM, hrule]
  cases w.holds subject fuel (nodeKey node.entity name :: path) node other depth with
  | error e => rfl
  | ok b => cases b <;> rfl

/-- A relation no subject set holds is decided by its tuples. -/
theorem holds_direct {subject : Subject} {fuel : ℕ} {path : List Str} {node : Node} {name : Str}
    {depth : ℕ} {type : ResolvedObjectType Ctx} {holders : List Holder} {b : Bool}
    (hd : depth ≤ w.maxDepth) (hpath : nodeKey node.entity name ∉ path)
    (ht : get w.model.types node.entity.type = some type) (hp : get type.permissions name = none)
    (hr : get type.relations name = some (.stored holders))
    (hdirect : w.direct subject holders node name = .ok b)
    (hsets : w.store.findSubjectSets node.entity name = .ok []) :
    w.holds subject (fuel + 1) path node name depth = .ok b := by
  rw [Walk.holds, if_neg (Nat.not_lt.mpr hd)]
  dsimp only
  rw [if_neg hpath, ht]
  dsimp only
  rw [hp, Walk.relation, hr]
  dsimp only
  rw [hdirect, hsets]
  cases b <;> rfl

/-! ## The walk ends -/

theorem fieldOf_ne {node : Node} {field what : Str} :
    fieldOf node field what ≠ .error .outOfFuel := by
  intro h
  rw [fieldOf] at h
  split at h
  · cases h
  · split at h <;> cases h

theorem relation_outOfFuel (hstore : Terminates w.store)
    {inner : Node → Str → ℕ → Except Failure Bool} {type : ResolvedObjectType Ctx} {node : Node}
    {name : Str} {depth : ℕ} {subject : Subject}
    (h : w.relation inner subject type node name depth = .error .outOfFuel) :
    ∃ node' name', inner node' name' (depth + 1) = .error .outOfFuel := by
  rw [Walk.relation] at h
  split at h
  case h_1 => cases h
  case h_2 =>
    rcases Except.bind_error.mp h with h | ⟨_, _, h⟩
    · exact absurd h fieldOf_ne
    · exact (Except.pure_error.mp h).elim
  case h_3 =>
    rcases Except.bind_error.mp h with h | ⟨_, _, h⟩
    · rw [Walk.direct] at h
      split at h
      · exact absurd h (hstore.1 _)
      · exact (Except.pure_error.mp h).elim
    split at h
    · exact (Except.pure_error.mp h).elim
    rcases Except.bind_error.mp h with h | ⟨_, _, h⟩
    · exact absurd h (hstore.2.1 _ _)
    obtain ⟨s, _, h⟩ := List.anyM_error h
    split at h
    · exact ⟨_, _, h⟩
    · exact (Except.pure_error.mp h).elim

theorem permission_outOfFuel (hw : Terminating w.model w.store)
    {inner : Node → Str → ℕ → Except Failure Bool} {type : ResolvedObjectType Ctx} {node : Node}
    {name : Str} {depth : ℕ} (ht : get w.model.types node.entity.type = some type)
    (h : w.permission inner type node name depth = .error .outOfFuel) :
    (∃ other, inner node other depth = .error .outOfFuel) ∨
      ∃ node' name', inner node' name' (depth + 1) = .error .outOfFuel := by
  obtain ⟨rule, hrule, h⟩ := List.anyM_error h
  obtain ⟨rules, hrules, hmem⟩ : ∃ rules, get type.permissions name = some rules ∧
    rule ∈ rules := by
    cases hg : get type.permissions name with
    | none => simp [hg] at hrule
    | some rules => exact ⟨rules, rfl, by simpa [hg] using hrule⟩
  rcases Except.bind_error.mp h with h | ⟨_, _, h⟩
  · rw [Walk.tested] at h
    split at h
    case h_1 test htest =>
      rw [Walk.passes] at h
      split at h
      · exact absurd h (hw.test ht hrules hmem htest)
      · cases h
    case h_2 => exact (Except.pure_error.mp h).elim
  split at h
  · exact (Except.pure_error.mp h).elim
  cases href : rule.ref with
  | name other =>
    rw [href] at h
    exact Or.inl ⟨other, h⟩
  | arrow relation target =>
    rw [href] at h
    rcases Except.bind_error.mp h with h | ⟨_, _, h⟩
    · rw [Walk.targets] at h
      split at h
      case h_1 => cases h
      case h_2 =>
        rcases Except.bind_error.mp h with h | ⟨_, _, h⟩
        · exact absurd h fieldOf_ne
        · split at h <;> exact (Except.pure_error.mp h).elim
      case h_3 =>
        rcases Except.bind_error.mp h with h | ⟨_, _, h⟩
        · exact absurd h (hw.store.2.2.1 _ _)
        · exact (Except.pure_error.mp h).elim
    · obtain ⟨node', _, h⟩ := List.anyM_error h
      exact Or.inr ⟨node', target, h⟩

/-- The names of the permissions an object's type declares. -/
def permissionNames (model : ResolvedModel Ctx) (e : Entity) : List Str :=
  ((get model.types e.type).map fun t => t.permissions.map Prod.fst).getD []

theorem length_permissionNames_le (model : ResolvedModel Ctx) (e : Entity) :
    (permissionNames model e).length ≤ mostPermissions model := by
  rw [permissionNames]
  cases ht : get model.types e.type with
  | none => simp
  | some t =>
    have hmem : t.permissions.length ∈ model.types.map fun e => e.2.permissions.length :=
      List.mem_map.mpr ⟨_, mem_of_get ht, rfl⟩
    rw [mostPermissions]
    generalize model.types.map (fun e => e.2.permissions.length) = ns at hmem
    simp only [Option.map_some, Option.getD_some, List.length_map]
    induction ns with
    | nil => cases hmem
    | cons n ns ih =>
      rcases List.mem_cons.mp hmem with h | h
      · exact h ▸ Nat.le_max_left ..
      · exact (ih h).trans (Nat.le_max_right ..)

/-- **The walk ends.** Between two relations crossed, each call is one more permission of the same
object on the path. -/
theorem holds_ne_outOfFuel (hw : Terminating w.model w.store) {subject : Subject} {fuel : ℕ}
    {path : List Str} {node : Node} {name : Str} {depth : ℕ}
    (hfuel : (w.maxDepth + 1 - depth) * (mostPermissions w.model + 2) +
      (permissionNames w.model node.entity).countP (fun n => decide (nodeKey node.entity n ∉ path))
        < fuel) :
    w.holds subject fuel path node name depth ≠ .error .outOfFuel := by
  induction fuel generalizing path node name depth with
  | zero => omega
  | succ fuel ih =>
    intro h
    rw [Walk.holds] at h
    split at h
    · cases h
    case isFalse hdepth =>
    dsimp only at h
    split at h
    · cases h
    case isFalse hpath =>
    split at h
    · cases h
    case h_2 type ht =>
    -- A relation crossed leaves a whole level of fuel.
    have hdeeper : ∀ node' name', w.holds subject fuel
      (nodeKey node.entity name :: path) node' name'
        (depth + 1) ≠ .error .outOfFuel := by
      intro node' name'
      refine ih ?_
      have hle : (permissionNames w.model node'.entity).countP
          (fun n => decide (nodeKey node'.entity n ∉ nodeKey node.entity name :: path)) ≤
          mostPermissions w.model :=
        List.countP_le_length.trans (length_permissionNames_le ..)
      have hlevel : w.maxDepth + 1 - depth = (w.maxDepth + 1 - (depth + 1)) + 1 := by omega
      rw [hlevel, Nat.succ_mul] at hfuel
      omega
    split at h
    case isTrue hp =>
      rcases permission_outOfFuel hw ht h with ⟨other, h⟩ | ⟨node', name', h⟩
      · refine ih ?_ h
        have hmem : name ∈ permissionNames w.model node.entity := by
          obtain ⟨rules, hr⟩ := Option.isSome_iff_exists.mp hp
          rw [permissionNames, ht]
          exact List.mem_map.mpr ⟨_, mem_of_get hr, rfl⟩
        have hlt : (permissionNames w.model node.entity).countP
            (fun n => decide (nodeKey node.entity n ∉ nodeKey node.entity name :: path)) <
            (permissionNames w.model node.entity).countP
              (fun n => decide (nodeKey node.entity n ∉ path)) :=
          List.countP_lt_countP (a := name) (by simp) hmem (by simpa using hpath) (by simp)
        omega
      · exact hdeeper _ _ h
    case isFalse =>
      obtain ⟨node', name', h⟩ := relation_outOfFuel hw.store h
      exact hdeeper _ _ h

/-! ## What `can()` answers -/

/-- The data of the object a question is about, and of no other. -/
def rootFields (root : ObjectArg) (e : Entity) : Option Record :=
  if e = ⟨root.type, root.id⟩ then some root.data else none

/-- Each type of `model` is one of `model'`, with the same relations, and its permissions' rules in
some order. -/
def IncludedIn (model model' : ResolvedModel Ctx) : Prop :=
  ∀ name t, get model.types name = some t → ∃ t', get model'.types name = some t' ∧
    (∀ r, get t.relations r = get t'.relations r) ∧
    ∀ p rules, get t.permissions p = some rules → ∃ rules', get t'.permissions p = some rules' ∧
      rules.Perm rules'

/-- Two models that differ only in the order of their permissions' rules. -/
structure Reordered (model model' : ResolvedModel Ctx) : Prop where
  subjects : ∀ s, s ∈ model.subjects ↔ s ∈ model'.subjects
  included : IncludedIn model model'
  includes : IncludedIn model' model

theorem IncludedIn.extends {model model' : ResolvedModel Ctx} (h : IncludedIn model model')
    (tuples : List RelationTuple) (fields : Entity → Option Record) (ctx : Option Ctx)
    (subject : Subject) :
    Extends ⟨model, tuples, fields, ctx, subject⟩ ⟨model', tuples, fields, ctx, subject⟩ where
  relation := by
    rintro e name r ⟨t, ht, hr⟩
    obtain ⟨t', ht', hrel, _⟩ := h _ t ht
    exact ⟨t', ht', hrel name ▸ hr⟩
  rules := by
    rintro e name rules ⟨t, ht, hr⟩
    obtain ⟨t', ht', _, hperm⟩ := h _ t ht
    obtain ⟨rules', hr', hp⟩ := hperm name rules hr
    exact ⟨rules', ⟨t', ht', hr'⟩, hp.subset⟩
  tuples := List.Subset.refl _
  fields := id
  ctx := rfl
  subject := rfl

theorem not_anonymous {bound : BoundModel Ctx} {subject : Arg} {where_ : Str} {who : Subject}
    (h : subjectOf bound.model subject where_ = .ok who) : isAnonymous subject = false := by
  obtain ⟨_, _, _, rfl, _⟩ := subjectOf_ok h
  rfl

/-- What `can()` answers past its refusals is what the walk answers, and `false` where no store is
asked. -/
theorem can_ok {bound : BoundModel Ctx} {subject object : Arg} {permission : Str}
    {ctx : Option Ctx} {answer : Bool} (hs : isAnonymous subject = false)
    (h : can bound subject permission object ctx = .ok answer) :
    ∃ root who, objectOf bound.model object (js "can") = .ok root ∧
      subjectOf bound.model subject (js "can") = .ok who ∧
      if isStorable root.id = true ∧ isStorable who.id = true then
        ∃ question, Walk.holds ⟨bound.model, bound.store, bound.maxDepth, ctx, question⟩ who
          (walkFuel bound.model bound.maxDepth) [] ⟨⟨root.type, root.id⟩,
          some root.data⟩ permission 0
            = .ok answer
      else answer = false := by
  rw [can, hs] at h
  obtain ⟨root, hroot, h⟩ := Except.bind_ok.mp h
  obtain ⟨type, _, h⟩ := Except.bind_ok.mp h
  split at h
  · cases h
  obtain ⟨who, hwho, h⟩ := Except.bind_ok.mp h
  refine ⟨root, who, hroot, hwho, ?_⟩
  split at h
  case isTrue hun =>
    rw [if_neg (by rintro ⟨hr, hw⟩; simp [hr, hw] at hun)]
    exact (Except.pure_ok.mp h).symm
  case isFalse hst =>
    rw [if_pos (by simpa using hst)]
    exact ⟨_, h⟩

/-- …and conversely: past its refusals, `can()` is the walk. -/
theorem can_eq {bound : BoundModel Ctx} {subject object : Arg} {permission : Str}
    {ctx : Option Ctx} {root : ObjectArg} {who : Subject} {type : ResolvedObjectType Ctx}
    (hs : isAnonymous subject = false)
    (hroot : objectOf bound.model object (js "can") = .ok root)
    (ht : typeOf bound.model root.type (js "can") = .ok type)
    (hd : type.declares permission = true)
    (hwho : subjectOf bound.model subject (js "can") = .ok who)
    (hr : isStorable root.id = true) (hw : isStorable who.id = true) :
    can bound subject permission object ctx =
      Walk.holds ⟨bound.model, bound.store, bound.maxDepth, ctx, type.name ++ js "#" ++ permission⟩
        who (walkFuel bound.model bound.maxDepth) [] ⟨⟨root.type, root.id⟩, some root.data⟩
        permission 0 := by
  rw [can, hs, if_neg Bool.false_ne_true, hroot, Except.ok_bind, ht, Except.ok_bind, hd]
  rw [if_neg (by simp), hwho, Except.ok_bind, hr, hw]
  rfl

/-- The same value is read as the same object by every model that reads it. -/
theorem objectOf_unique {model model' : ResolvedModel Ctx} {object : Arg} {where_ : Str}
    {root root' : ObjectArg} (h : objectOf model object where_ = .ok root)
    (h' : objectOf model' object where_ = .ok root') : root' = root := by
  obtain ⟨rfl, ht, hi, _⟩ := objectOf_ok h
  obtain ⟨hd, ht', hi', _⟩ := objectOf_ok h'
  obtain ⟨type, id, data⟩ := root
  obtain ⟨type', id', data'⟩ := root'
  obtain rfl : data = data' := Arg.record.inj hd
  simp_all

/-- …and as the same subject by models of the same user types. -/
theorem subjectOf_unique {model model' : ResolvedModel Ctx} {subject : Arg} {where_ where' : Str}
    {who who' : Subject} (hsub : ∀ s, s ∈ model.subjects ↔ s ∈ model'.subjects)
    (h : subjectOf model subject where_ = .ok who)
    (h' : subjectOf model' subject where' = .ok who') : who' = who := by
  obtain ⟨r, type, id, rfl, ht, hi, _, rfl, _⟩ := subjectOf_ok h
  obtain ⟨r', type', id', hr, ht', hi', _, rfl, _⟩ := subjectOf_ok h'
  obtain rfl : r = r' := Arg.record.inj hr
  obtain rfl : type = type' := Value.str.inj (ht.symm.trans ht')
  obtain rfl : id = id' := Value.str.inj (hi.symm.trans hi')
  have : model'.subjects.contains type = model.subjects.contains type := by
    rw [Bool.eq_iff_iff, List.contains_iff_mem, List.contains_iff_mem, hsub]
  rw [this]

/-- An answer to a subject and an object stores can keep is the walk's. -/
theorem can_walk {bound : BoundModel Ctx} {tuples : List RelationTuple} {subject object : Arg}
    {permission : Str} {ctx : Option Ctx} {root : ObjectArg} {who : Subject} {answer : Bool}
    (hkeeps : Keeps bound.store tuples)
    (hroot : objectOf bound.model object (js "can") = .ok root)
    (hwho : subjectOf bound.model subject (js "can") = .ok who)
    (hrootId : isStorable root.id = true) (hwhoId : isStorable who.id = true)
    (h : can bound subject permission object ctx = .ok answer) {fields : Entity → Option Record}
    (hfields : fields ⟨root.type, root.id⟩ = some root.data) :
    ∃ w : Walk Ctx, w.maxDepth = bound.maxDepth ∧ w.Asks ⟨bound.model, tuples, fields, ctx, who⟩ ∧
      Node.Agrees ⟨bound.model, tuples, fields, ctx, who⟩ ⟨⟨root.type, root.id⟩, some root.data⟩ ∧
      w.holds who (walkFuel bound.model bound.maxDepth) [] ⟨⟨root.type, root.id⟩, some root.data⟩
        permission 0 = .ok answer := by
  obtain ⟨root', who', hroot', hwho', hwalk⟩ := can_ok (not_anonymous hwho) h
  obtain rfl := objectOf_unique hroot hroot'
  obtain rfl := subjectOf_unique (fun _ => Iff.rfl) hwho hwho'
  rw [if_pos ⟨hrootId, hwhoId⟩] at hwalk
  obtain ⟨question, hwalk⟩ := hwalk
  refine ⟨_, rfl, ⟨rfl, rfl, hkeeps⟩, ?_, hwalk⟩
  rintro data hdata
  exact Option.some.inj hdata ▸ hfields

theorem can_iff {bound : BoundModel Ctx} {tuples : List RelationTuple} {subject object : Arg}
    {permission : Str} {ctx : Option Ctx} {root : ObjectArg} {who : Subject} {answer : Bool}
    (hkeeps : Keeps bound.store tuples)
    (hroot : objectOf bound.model object (js "can") = .ok root)
    (hwho : subjectOf bound.model subject (js "can") = .ok who)
    (hrootId : isStorable root.id = true) (hwhoId : isStorable who.id = true)
    (h : can bound subject permission object ctx = .ok answer) {fields : Entity → Option Record}
    (hfields : fields ⟨root.type, root.id⟩ = some root.data) :
    answer = true ↔ Holds ⟨bound.model, tuples, fields, ctx, who⟩ ⟨root.type, root.id⟩
      permission := by
  obtain ⟨w, -, hasks, hagrees, hwalk⟩ := can_walk hkeeps hroot hwho hrootId hwhoId h hfields
  exact holds_iff hasks hagrees hwalk

/-- …and what it grants is derived by crossing no more than `maxDepth` relations. -/
theorem can_within {bound : BoundModel Ctx} {tuples : List RelationTuple} {subject object : Arg}
    {permission : Str} {ctx : Option Ctx} {root : ObjectArg} {who : Subject}
    (hkeeps : Keeps bound.store tuples)
    (hroot : objectOf bound.model object (js "can") = .ok root)
    (hwho : subjectOf bound.model subject (js "can") = .ok who)
    (hrootId : isStorable root.id = true) (hwhoId : isStorable who.id = true)
    (h : can bound subject permission object ctx = .ok true) {fields : Entity → Option Record}
    (hfields : fields ⟨root.type, root.id⟩ = some root.data) {q : Situation Ctx}
    (hq : q = ⟨bound.model, tuples, fields, ctx, who⟩) :
    Cut.Within (Base q) (Names q) (Crosses q) bound.maxDepth (⟨root.type, root.id⟩,
      permission) := by
  subst hq
  obtain ⟨w, hdepth, hasks, hagrees, hwalk⟩ := can_walk hkeeps hroot hwho hrootId hwhoId h hfields
  exact hdepth ▸ holds_within hasks hagrees hwalk

/-- **`can()` ends**: the fuel it gives its walk is enough. -/
theorem can_ne_outOfFuel {bound : BoundModel Ctx} (hb : Terminating bound.model bound.store)
    (subject object : Arg) (permission : Str) (ctx : Option Ctx) :
    can bound subject permission object ctx ≠ .error .outOfFuel := by
  intro h
  rw [can] at h
  split at h
  · cases h
  rcases Except.bind_error.mp h with h | ⟨root, _, h⟩
  · obtain ⟨_, ⟨⟩⟩ := objectOf_error h
  rcases Except.bind_error.mp h with h | ⟨type, _, h⟩
  · obtain ⟨_, ⟨⟩⟩ := typeOf_error h
  split at h
  · cases h
  rcases Except.bind_error.mp h with h | ⟨who, _, h⟩
  · obtain ⟨_, ⟨⟩⟩ := subjectOf_error h
  split at h
  · cases h
  · refine holds_ne_outOfFuel hb ?_ h
    have hlevel : walkFuel bound.model bound.maxDepth =
        (bound.maxDepth + 1 - 0) * (mostPermissions bound.model + 2) +
          (mostPermissions bound.model + 2) := Nat.succ_mul ..
    rw [hlevel]
    exact Nat.add_lt_add_left (Nat.lt_of_le_of_lt (List.countP_le_length.trans
      (length_permissionNames_le ..)) (Nat.lt_add_of_pos_right Nat.two_pos)) _

/-- **`can()` decides the least fixpoint of the model** — for every store that keeps the tuples, in
whatever order it answers and the rules are written. -/
theorem can_decides {bound : BoundModel Ctx} {tuples : List RelationTuple} {subject object : Arg}
    {permission : Str} {ctx : Option Ctx} {root : ObjectArg} {who : Subject} {answer : Bool}
    (hkeeps : Keeps bound.store tuples)
    (hroot : objectOf bound.model object (js "can") = .ok root)
    (hwho : subjectOf bound.model subject (js "can") = .ok who)
    (hrootId : isStorable root.id = true) (hwhoId : isStorable who.id = true)
    (h : can bound subject permission object ctx = .ok answer) :
    (answer = true ↔
      Holds ⟨bound.model, tuples, rootFields root, ctx, who⟩ ⟨root.type, root.id⟩ permission) ∧
    ∀ bound' : BoundModel Ctx, Reordered bound.model bound'.model → Keeps bound'.store tuples →
      ∀ answer', can bound' subject permission object ctx = .ok answer' → answer' = answer := by
  have hfields : rootFields root ⟨root.type, root.id⟩ = some root.data := if_pos rfl
  have hiff := can_iff hkeeps hroot hwho hrootId hwhoId h hfields
  refine ⟨hiff, fun bound' hre hkeeps' answer' h' => ?_⟩
  obtain ⟨root', who', hroot', hwho', _⟩ := can_ok (not_anonymous hwho) h'
  obtain rfl := objectOf_unique hroot hroot'
  obtain rfl := subjectOf_unique hre.subjects hwho hwho'
  have hiff' := can_iff hkeeps' hroot' hwho' hrootId hwhoId h' hfields
  rw [Bool.eq_iff_iff, hiff, hiff']
  exact ⟨Holds.mono (hre.includes.extends ..), Holds.mono (hre.included.extends ..)⟩

/-! ## A clinic -/

/-- Teams of staff, and the records a team's members view. -/
def clinic : ResolvedModel Unit where
  subjects := [js "staff"]
  types := [
    (js "team", {
      name := js "team"
      relations := [(js "members", .stored [.type (js "staff"), .set (js "team") (js "members")])]
      permissions := [] }),
    (js "record", {
      name := js "record"
      relations := [(js "viewers", .stored [.type (js "staff"), .set (js "team") (js "members")])]
      permissions := [(js "view", [⟨.name (js "viewers"), none⟩])] })]
  subject_isName := staff_isName
  checked := ⟨by decide, by decide, by decide, by decide, by decide, by decide, by decide⟩

/-- A value with a type and an id, and nothing else. -/
def row (type id : Str) : Record := .of [(js "type", .str type), (js "id", .str id)] false

/-- A record its team's members view, the team being a member of itself. -/
def teamTuples : List RelationTuple := [
  ⟨⟨js "record", js "r1"⟩, js "viewers", .set ⟨⟨js "team", js "t1"⟩, js "members"⟩⟩,
  ⟨⟨js "team", js "t1"⟩, js "members", .set ⟨⟨js "team", js "t1"⟩, js "members"⟩⟩,
  ⟨⟨js "team", js "t1"⟩, js "members", .entity ⟨js "staff", js "ada"⟩⟩]

/-- Ada views the record through the loop of her team, and Bo does not. -/
theorem can_decides_clinic :
    Holds ⟨clinic, teamTuples, rootFields ⟨js "record", js "r1", row (js "record") (js "r1")⟩, none,
      .entity ⟨js "staff", js "ada"⟩⟩ ⟨js "record", js "r1"⟩ (js "view") ∧
    ¬ Holds ⟨clinic, teamTuples, rootFields ⟨js "record", js "r1", row (js "record") (js "r1")⟩, none,
      .entity ⟨js "staff", js "bo"⟩⟩ ⟨js "record", js "r1"⟩ (js "view") := by
  have hada : can ⟨clinic, ofTuples teamTuples, 10⟩
    (.record (row (js "staff") (js "ada"))) (js "view")
      (.record (row (js "record") (js "r1"))) none = .ok true := by decide
  have hbo : can ⟨clinic, ofTuples teamTuples, 10⟩
    (.record (row (js "staff") (js "bo"))) (js "view")
      (.record (row (js "record") (js "r1"))) none = .ok false := by decide
  have hroot : objectOf clinic (.record (row (js "record") (js "r1"))) (js "can") =
      .ok ⟨js "record", js "r1", row (js "record") (js "r1")⟩ := objectOf_of rfl rfl rfl rfl
  exact ⟨(can_decides (ofTuples_keeps _) hroot rfl rfl rfl hada).1.mp rfl,
    fun h => Bool.false_ne_true ((can_decides (ofTuples_keeps _) hroot rfl rfl rfl hbo).1.mpr h)⟩

end Janus.Permissions
