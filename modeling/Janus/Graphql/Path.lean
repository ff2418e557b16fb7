import Mathlib.Data.List.Forall2
import Janus.Js.Value
import Janus.Machinery.Outcome

/-!
# Graphql/Path — the ids a path names

`args.<name>…` or `parent.<name>…`, read when the schema is built (`parsePath`) and walked in a
request (`targetsOf`).  `Reaches` is what a path reaches through lists of any depth; the walk
answers only where every step stands on an object, and then names every value reached
(`targetsOf_some`).
-/

namespace Janus.Graphql

open Js

/-! ## Values -/

/-- A parent or an argument, as far as a path reads it: of an object, a list included, what each
property read answers. -/
inductive Data where
  | undefined
  | null
  | str (s : Str)
  | int (n : ℤ)
  | other
  | list (items : List Data) (read : Str → Data)
  | object (read : Str → Data)

namespace Data

/-- `typeof value === 'object' && value !== null`. -/
def isObject : Data → Bool
  | .list .. | .object _ => true
  | _ => false

/-- `value[name]`. -/
def read : Data → Str → Data
  | .list _ read | .object read => read
  | _ => fun _ => .undefined

mutual

/-- A list, flattened however deep, or the value alone. -/
def spread : Data → List Data
  | .list items _ => spreadAll items
  | v => [v]

/-- …of every item. -/
def spreadAll : List Data → List Data
  | [] => []
  | item :: items => spread item ++ spreadAll items

end

/-- `Number.isSafeInteger`. -/
def isSafeInteger (n : ℤ) : Bool := n.natAbs ≤ 9007199254740991

/-- `String(n)`, of an integer. -/
def intText (n : ℤ) : Str := if n < 0 then 45 :: decimal n.natAbs else decimal n.natAbs

/-- An `ID`: a string, or an integer as it is serialised. -/
def idOf : Data → Option Str
  | .str s => some s
  | .int n => if isSafeInteger n then some (intText n) else none
  | _ => none

end Data

/-! ## Paths -/

inductive PathRoot where
  | args
  | parent
deriving DecidableEq

/-- A parsed `id:`: a root, and at least one name. -/
structure IdPath where
  text : Str
  root : PathRoot
  segments : List Str
  nonempty : segments ≠ []

/-- `/^[_A-Za-z][_0-9A-Za-z]*$/`. -/
def isSegment (name : Str) : Bool :=
  let letter (u : CodeUnit) : Bool :=
    u = 95 || (65 ≤ u.val && u.val ≤ 90) || (97 ≤ u.val && u.val ≤ 122)
  match name with
  | [] => false
  | u :: rest => letter u && rest.all fun u => letter u || (48 ≤ u.val && u.val ≤ 57)

/-- `text` parsed, when it is `args.<name>…` or `parent.<name>…`. -/
def parsePath (text : Str) : Option IdPath :=
  match text.splitOn 46 with
  | root :: segment :: segments =>
    let parsed (root : PathRoot) : Option IdPath :=
      if (segment :: segments).all isSegment then
        some ⟨text, root, segment :: segments, List.cons_ne_nil segment segments⟩
      else none
    if root = js "args" then parsed .args
    else if root = js "parent" then parsed .parent
    else none
  | _ => none

/-- The segments but the last, and the last. -/
def IdPath.init (path : IdPath) : List Str := path.segments.dropLast

def IdPath.last (path : IdPath) : Str := path.segments.getLast path.nonempty

/-- Whether the id is its object's own. -/
def IdPath.held (path : IdPath) : Bool := path.root = .parent ∧ path.last = js "id"

/-- One object a check is about: its id, and the value that holds it when that is the object. -/
structure Target where
  id : Str
  holder : Option Data

/-- The values `segments` reach from `values`, a list read as its elements. -/
def walk : List Data → List Str → Option (List Data)
  | values, [] => if values.all Data.isObject then some values else none
  | values, segment :: segments =>
    if values.all Data.isObject then walk (values.flatMap fun v => (v.read segment).spread) segments
    else none

/-- What a path starts from. -/
def IdPath.rootOf (path : IdPath) (parent args : Data) : Data :=
  match path.root with
  | .args => args
  | .parent => parent

/-- The objects `path` names in this request: `none` when a step reads nothing, an id is no id, or a
path under `parent` names nothing at all. -/
def targetsOf (path : IdPath) (parent args : Data) : Option (List Target) := do
  let containers ← walk [path.rootOf parent args] path.init
  let targets ← (containers.flatMap fun container =>
    (container.read path.last).spread.map fun value =>
      (container, value)).mapM fun (container, value) =>
      value.idOf.map fun id => ⟨id, if path.held then some container else none⟩
  if path.root = .parent ∧ targets = [] then none else some targets

/-! ## What a path reaches -/

/-- A value itself when it is no list, or an element of one of a list's items. -/
inductive Element : Data → Data → Prop
  | self {v : Data} (h : ∀ items read, v ≠ .list items read) : Element v v
  | item {items : List Data} {read : Str → Data} {item v : Data} (hitem : item ∈ items)
      (h : Element item v) : Element (.list items read) v

/-- **A path reaches a value**: name after name, and through lists. -/
def Reaches (x : Data) : List Str → Data → Prop
  | [], v => v = x
  | segment :: segments, v => ∃ o, Element (x.read segment) o ∧ Reaches o segments v

theorem element_iff {x v : Data} (h : ∀ items read, x ≠ .list items read) :
    Element x v ↔ v = x := by
  constructor
  · rintro (_ | ⟨hitem, -⟩)
    · rfl
    · exact absurd rfl (h _ _)
  · rintro rfl
    exact .self h

mutual

theorem mem_spread {x v : Data} : v ∈ x.spread ↔ Element x v := by
  match x with
  | .list items read =>
    rw [Data.spread, mem_spreadAll]
    exact ⟨fun ⟨item, hitem, h⟩ => .item hitem h, fun h => match h with
      | .item hitem h => ⟨_, hitem, h⟩
      | .self hlist => absurd rfl (hlist items read)⟩
  | .undefined | .null | .str _ | .int _ | .other | .object _ =>
    rw [Data.spread, element_iff (by rintro _ _ ⟨⟩), List.mem_singleton]
    rintro _ _ ⟨⟩

theorem mem_spreadAll {items : List Data} {v : Data} :
    v ∈ Data.spreadAll items ↔ ∃ item ∈ items, Element item v := by
  match items with
  | [] => simp [Data.spreadAll]
  | item :: items =>
    rw [Data.spreadAll, List.mem_append, mem_spread, mem_spreadAll]
    simp only [List.mem_cons, exists_eq_or_imp]

end

/-! ## The walk reaches what the path does -/

/-- **A walk answers what the path reaches**, where every step stands on an object. -/
theorem walk_some {values containers : List Data} {segments : List Str}
    (h : walk values segments = some containers) :
    (∀ o, o ∈ containers ↔ ∃ x ∈ values, Reaches x segments o) ∧
      ∀ init, init <+: segments → ∀ x ∈ values, ∀ o, Reaches x init o → o.isObject = true := by
  induction segments generalizing values with
  | nil =>
    rw [walk] at h
    split at h
    case isFalse => cases h
    case isTrue hobjects =>
      cases h
      refine ⟨fun o => by simp [Reaches], fun init hinit x hx o ho => ?_⟩
      rw [List.prefix_nil.mp hinit, Reaches] at ho
      exact ho ▸ List.all_eq_true.mp hobjects x hx
  | cons segment segments ih =>
    rw [walk] at h
    split at h
    case isFalse => cases h
    case isTrue hobjects =>
      obtain ⟨hreached, hstood⟩ := ih h
      refine ⟨fun o => ?_, fun init hinit x hx o ho => ?_⟩
      · rw [hreached]
        simp only [List.mem_flatMap, mem_spread, Reaches]
        exact ⟨fun ⟨y, ⟨x, hx, hy⟩, ho⟩ => ⟨x, hx, y, hy, ho⟩,
          fun ⟨x, hx, y, hy, ho⟩ => ⟨y, ⟨x, hx, hy⟩, ho⟩⟩
      · obtain rfl | ⟨tail, rfl, htail⟩ := List.prefix_cons_iff.mp hinit
        · exact ho ▸ List.all_eq_true.mp hobjects x hx
        · obtain ⟨y, hy, ho⟩ := ho
          exact hstood tail htail y (List.mem_flatMap.mpr ⟨x, hx, mem_spread.mpr hy⟩) o ho

theorem reaches_concat {x v : Data} {init : List Str} {segment : Str} :
    Reaches x (init ++ [segment]) v ↔ ∃ o, Reaches x init o ∧ Element (o.read segment) v := by
  induction init generalizing x with
  | nil => simp [Reaches, eq_comm]
  | cons first init ih =>
    simp only [List.cons_append, Reaches, ih]
    exact ⟨fun ⟨y, hy, o, ho, hv⟩ => ⟨o, ⟨y, hy, ho⟩, hv⟩,
      fun ⟨o, ⟨y, hy, ho⟩, hv⟩ => ⟨y, hy, o, ho, hv⟩⟩

/-- A path's values are those read off the objects before its last name. -/
theorem IdPath.reaches_iff {path : IdPath} {x v : Data} :
    Reaches x path.segments v ↔ ∃ o, Reaches x path.init o ∧ Element (o.read path.last) v := by
  conv_lhs => rw [← List.dropLast_append_getLast path.nonempty]
  exact reaches_concat

/-- The target of one value reached. -/
def IdPath.target (path : IdPath) (container : Data) (id : Str) : Target :=
  ⟨id, if path.held then some container else none⟩

/-- **The targets name every value a path reaches**: every step before the last stands on an object,
every value reached is an id, and a path under `parent` reaches one. -/
theorem targetsOf_some {path : IdPath} {parent args : Data} {targets : List Target}
    (h : targetsOf path parent args = some targets) :
    (∀ init, init <+: path.init → ∀ o, Reaches (path.rootOf parent args) init o →
      o.isObject = true) ∧
    (∀ o v, Reaches (path.rootOf parent args) path.init o → Element (o.read path.last) v →
      ∃ id, v.idOf = some id ∧ path.target o id ∈ targets) ∧
    (path.root = .parent → ∃ v, Reaches (path.rootOf parent args) path.segments v) := by
  rw [targetsOf] at h
  obtain ⟨containers, hwalk, h⟩ := Option.bind_eq_some_iff.mp h
  obtain ⟨found, hfound, h⟩ := Option.bind_eq_some_iff.mp h
  obtain ⟨hreached, hstood⟩ := walk_some hwalk
  have hone : ∀ o, o ∈ containers ↔ Reaches (path.rootOf parent args) path.init o := by
    simpa using hreached
  have hall := List.mapM_some hfound
  split at h
  · cases h
  case isFalse hsome =>
  cases h
  refine ⟨fun init hinit o => hstood init hinit _ (List.mem_singleton_self _) o,
    fun o v ho hv => ?_, fun hparent => ?_⟩
  · have hmem : (o, v) ∈ containers.flatMap fun container =>
        (container.read path.last).spread.map fun value => (container, value) :=
      List.mem_flatMap.mpr ⟨o, (hone o).mpr ho, List.mem_map.mpr ⟨v, mem_spread.mpr hv, rfl⟩⟩
    obtain ⟨target, htarget, hread⟩ := hall.exists_right hmem
    obtain ⟨id, hid, rfl⟩ := Option.map_eq_some_iff.mp hread
    exact ⟨id, hid, htarget⟩
  · obtain ⟨target, htarget⟩ := List.exists_mem_of_ne_nil _ fun hnil => hsome ⟨hparent, hnil⟩
    obtain ⟨⟨o, v⟩, hov, -⟩ := hall.flip.exists_right htarget
    obtain ⟨o, ho, hv⟩ := List.mem_flatMap.mp hov
    obtain ⟨v, hv, -⟩ := List.mem_map.mp hv
    exact ⟨v, path.reaches_iff.mpr ⟨o, (hone o).mp ho, mem_spread.mp hv⟩⟩

/-- A target is held by what the path holds, and by nothing else. -/
theorem isSome_holder {path : IdPath} {parent args : Data} {targets : List Target}
    (h : targetsOf path parent args = some targets) {target : Target} (htarget : target ∈ targets) :
    target.holder.isSome = path.held := by
  rw [targetsOf] at h
  obtain ⟨containers, -, h⟩ := Option.bind_eq_some_iff.mp h
  obtain ⟨found, hfound, h⟩ := Option.bind_eq_some_iff.mp h
  split at h
  · cases h
  cases h
  obtain ⟨⟨o, v⟩, -, hread⟩ := (List.mapM_some hfound).flip.exists_right htarget
  obtain ⟨id, -, rfl⟩ := Option.map_eq_some_iff.mp hread
  dsimp only
  split <;> simp [*]

end Janus.Graphql
