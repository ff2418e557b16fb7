import Janus.Permissions.Input
import Janus.Machinery.Search

/-!
# Permissions/Accepted — what resolving a model refuses

Two checks of the whole model, after its references.  A permission that reaches itself through names
alone has no relation to end the walk (`refuseLoops`); and a field is read off the object `can()`
was given, so nothing reached through an arrow or a subject set may need one
(`refuseDataBeyondRoot`).
-/

namespace Janus.Permissions

open Js Insertion Search Relation

variable {Ctx : Type}

/-! ## Loops -/

section Loops

variable (type : ResolvedObjectType Ctx)

/-- The permissions a permission refers to by name. -/
def successors (permission : Str) : List Str :=
  ((get type.permissions permission).getD []).filterMap fun rule =>
    match rule.ref with
    | .name name => if (get type.permissions name).isSome then some name else none
    | .arrow .. => none

/-- A permission refers to a name of the same object. -/
def RefersTo (permission name : Str) : Prop :=
  ∃ rules, get type.permissions permission = some rules ∧ ∃ rule ∈ rules, rule.ref = .name name

/-- The permissions a type declares, in order. -/
def permissionKeys : List Str := type.permissions.map Prod.fst

variable {type}

theorem mem_permissionKeys {permission : Str} :
    permission ∈ permissionKeys type ↔ (get type.permissions permission).isSome :=
  mem_keys

theorem RefersTo.isSome {p q : Str} (h : RefersTo type p q) : (get type.permissions p).isSome := by
  obtain ⟨rules, hrules, -⟩ := h
  rw [hrules]
  rfl

theorem mem_successors {p q : Str} :
    q ∈ successors type p ↔ RefersTo type p q ∧ (get type.permissions q).isSome := by
  rw [successors, List.mem_filterMap]
  constructor
  · rintro ⟨rule, hrule, hread⟩
    cases hrules : get type.permissions p with
    | none => simp [hrules] at hrule
    | some rules =>
      rw [hrules, Option.getD_some] at hrule
      split at hread
      case h_1 name href =>
        split at hread
        · cases hread
          exact ⟨⟨rules, hrules, rule, hrule, href⟩, ‹_›⟩
        · cases hread
      case h_2 => cases hread
  · rintro ⟨⟨rules, hrules, rule, hrule, href⟩, hq⟩
    exact ⟨rule, by rwa [hrules], by simp [href, hq]⟩

theorem successors_mem {p q : Str} (h : q ∈ successors type p) :
    p ∈ permissionKeys type ∧ q ∈ permissionKeys type := by
  obtain ⟨hp, hq⟩ := mem_successors.mp h
  exact ⟨mem_permissionKeys.mpr hp.isSome, mem_permissionKeys.mpr hq⟩

/-- What reaches a permission by name does so through permissions. -/
theorem reaches_of_refers {p q : Str} (hq : (get type.permissions q).isSome)
    (h : TransGen (RefersTo type) p q) : TransGen (Edge (successors type)) p q := by
  induction h using TransGen.head_induction_on with
  | single h => exact .single (mem_successors.mpr ⟨h, hq⟩)
  | head h h' ih =>
    obtain ⟨c, hc, -⟩ := TransGen.head'_iff.mp h'
    exact .head (mem_successors.mpr ⟨h, hc.isSome⟩) ih

/-- A loop of permissions is a loop of names. -/
theorem loop_iff {p : Str} :
    TransGen (Edge (successors type)) p p ↔ TransGen (RefersTo type) p p := by
  constructor
  · exact fun h => TransGen.mono (fun a b h => (mem_successors.mp h).1) _ _ h
  · intro h
    obtain ⟨q, hq, -⟩ := TransGen.head'_iff.mp h
    exact reaches_of_refers hq.isSome h

/-- Whoever reaches itself is a permission. -/
theorem loop_mem {p : Str} (h : TransGen (Edge (successors type)) p p) :
    p ∈ permissionKeys type := by
  obtain ⟨q, hq, -⟩ := TransGen.head'_iff.mp h
  exact (successors_mem hq).1

end Loops

section Checks

variable (where_ : Str) (types : List (Str × ResolvedObjectType Ctx))

/-- A permission that reaches itself through names alone is refused. -/
def refuseLoops : Except Failure Unit :=
  types.forM fun e =>
    match search (successors e.2) (e.2.permissions.length + 1) (permissionKeys e.2) with
    | .ok _ => pure ()
    | .error (.loop path) => throw <| .typeError <| where_ ++ js ": types." ++ e.2.name ++
        js ".permits: " ++ List.intercalate (js " → ") path ++ js " is a loop no relation ends"
    | .error .outOfFuel => throw .outOfFuel

/-- **`refuseLoops` refuses exactly the models in which a permission reaches itself through
same-object names alone.** -/
theorem refuseLoops_ok_iff :
    refuseLoops where_ types = .ok () ↔
      ∀ e ∈ types, ∀ p, ¬ TransGen (Edge (successors e.2)) p p := by
  rw [refuseLoops, List.forM_ok]
  refine forall₂_congr fun e _ => ?_
  have hnodes : ∀ p ∈ permissionKeys e.2, ∀ q ∈ successors e.2 p, q ∈ permissionKeys e.2 :=
    fun p _ q hq => (successors_mem hq).2
  have hfuel : (permissionKeys e.2).length < e.2.permissions.length + 1 := by
    simp [permissionKeys]
  have hloops : (∀ p, ¬ TransGen (Edge (successors e.2)) p p) ↔
      ∀ p ∈ permissionKeys e.2, ¬ TransGen (Edge (successors e.2)) p p :=
    ⟨fun h p _ => h p, fun h p hp => h p (loop_mem hp) hp⟩
  rw [hloops, ← search_ok_iff hnodes hfuel]
  cases search (successors e.2) (e.2.permissions.length + 1) (permissionKeys e.2) with
  | ok done => simp [pure, Except.pure]
  | error stop => cases stop <;> simp [throw, throwThe, MonadExceptOf.throw]

variable {where_ types} in
/-- Of a model without loops, names of one object are in order. -/
theorem refuseLoops_acc (h : refuseLoops where_ types = .ok ()) {e : Str × ResolvedObjectType Ctx}
    (he : e ∈ types) (p : Str) : Acc (fun q p => Edge (successors e.2) p q) p := by
  by_cases hp : p ∈ permissionKeys e.2
  · have hsearch := List.forM_ok.mp h e he
    split at hsearch
    case h_1 done hdone => exact acc_of_search hdone p hp
    case h_2 => cases hsearch
    case h_3 => cases hsearch
  · exact ⟨_, fun q hq => absurd (successors_mem hq).1 hp⟩

/-- …and what it throws is a `TypeError`: it has fuel enough. -/
theorem refuseLoops_ne_outOfFuel : refuseLoops where_ types ≠ .error .outOfFuel := by
  intro h
  obtain ⟨e, -, h⟩ := List.forM_error h
  have hnodes : ∀ p ∈ permissionKeys e.2, ∀ q ∈ successors e.2 p, q ∈ permissionKeys e.2 :=
    fun p _ q hq => (successors_mem hq).2
  split at h
  case h_1 => cases h
  case h_2 => cases h
  case h_3 hsearch =>
    obtain ⟨⟨_, hloop⟩, -⟩ := search_error hnodes (by simp [permissionKeys]) hsearch
    cases hloop

/-! ## Data beyond the root -/

/-- The field `name` of a type reads, directly or through its own rules; `none` when none. -/
def fieldRead (type : ResolvedObjectType Ctx) : ℕ → Str → Except Failure (Option Str)
  | 0, _ => throw .outOfFuel
  | fuel + 1, name =>
    match get type.relations name with
    | some (.fromField field _ _) => pure (some field)
    | some (.stored _) => pure none
    | none =>
      ((get type.permissions name).getD []).findSomeM? fun rule =>
        match rule.ref with
        | .name other => fieldRead type fuel other
        -- An arrow reads its own relation on this object.
        | .arrow relation _ => fieldRead type fuel relation

/-- …with fuel enough for a type without loops. -/
def fieldOfName (type : ResolvedObjectType Ctx) (name : Str) : Except Failure (Option Str) :=
  fieldRead type (type.permissions.length + 2) name

/-- The types an arrow through a relation may reach. -/
def reachedBy (type : ResolvedObjectType Ctx) (relation : Str) : List Str :=
  match get type.relations relation with
  | some (.fromField _ subject _) => [subject]
  | some (.stored holders) => holders.map fun
    | .type type => type
    | .set type _ => type
  | none => []

/-- A subject set or an arrow that reaches a name which reads a field is refused. -/
def refuseDataBeyondRoot : Except Failure Unit :=
  types.forM fun e => do
    e.2.relations.forM fun r =>
      match r.2 with
      | .fromField .. => pure ()
      | .stored holders =>
        holders.forM fun
          | .type _ => pure ()
          | .set type relation =>
            match get types type with
            | none => pure ()
            | some target => do
              match ← fieldOfName target relation with
              | none => pure ()
              | some field =>
                throw <| .typeError <|
                  where_ ++ js ": types." ++ e.2.name ++ js ".related." ++ r.1 ++
                  js ": \"" ++ type ++
                    js "#" ++ relation ++ js "\" reads " ++ type ++ js "." ++ field ++
                    js ", and a subject set reaches " ++ type ++ js "s nobody passed to can() — " ++
                    js "store that relation instead of reading it"
    e.2.permissions.forM fun p =>
      p.2.forM fun rule =>
        match rule.ref with
        | .name _ => pure ()
        | .arrow relation target =>
          (reachedBy e.2 relation).forM fun name =>
            match get types name with
            | none => pure ()
            | some type => do
              match ← fieldOfName type target with
              | none => pure ()
              | some field =>
                throw <| .typeError <|
                  where_ ++ js ": types." ++ e.2.name ++ js ".permits." ++ p.1 ++ js ": \"" ++
                    relation ++ js "->" ++ target ++ js "\" reaches " ++ name ++ js "." ++ target ++
                    js ", which reads " ++ name ++ js "." ++ field ++
                    js ", and only the object passed to can() carries its data — store that " ++
                    js "relation instead of reading it"

end Checks

/-- **A name needs data of its object**: it is read from a field, or a rule of it is. -/
inductive Reads (type : ResolvedObjectType Ctx) : Str → Prop
  | field {name field subject : Str}
      {lookup : Option (Str → Except Failure (Option (List Value)))}
      (h : get type.relations name = some (.fromField field subject lookup)) : Reads type name
  | name {name other : Str} {rules : List (ResolvedRule Ctx)} {rule : ResolvedRule Ctx}
      (hrelation : get type.relations name = none) (hrules : get type.permissions name = some rules)
      (hrule : rule ∈ rules) (href : rule.ref = .name other) (h : Reads type other) :
      Reads type name
  | arrow {name relation target : Str} {rules : List (ResolvedRule Ctx)} {rule : ResolvedRule Ctx}
      (hrelation : get type.relations name = none) (hrules : get type.permissions name = some rules)
      (hrule : rule ∈ rules) (href : rule.ref = .arrow relation target) (h : Reads type relation) :
      Reads type name

/-- **A name that reads a field is found to.** -/
theorem Reads.found {type : ResolvedObjectType Ctx} {name : Str} (h : Reads type name) :
    ∀ fuel, fieldRead type fuel name ≠ .ok none := by
  induction h with
  | field h =>
    rintro (_ | fuel) hread
    · cases hread
    · rw [fieldRead, h] at hread
      cases hread
  | name hrelation hrules hrule href _ ih =>
    rintro (_ | fuel) hread
    · cases hread
    · simp only [fieldRead, hrelation, hrules, Option.getD_some] at hread
      have hnone := List.findSomeM?_ok_none hread _ hrule
      rw [href] at hnone
      exact ih fuel hnone
  | arrow hrelation hrules hrule href _ ih =>
    rintro (_ | fuel) hread
    · cases hread
    · simp only [fieldRead, hrelation, hrules, Option.getD_some] at hread
      have hnone := List.findSomeM?_ok_none hread _ hrule
      rw [href] at hnone
      exact ih fuel hnone

/-! ### Fuel enough -/

/-- A name that is no permission is read at once. -/
theorem fieldRead_of_none {type : ResolvedObjectType Ctx} {name : Str}
    (h : get type.permissions name = none) (fuel : ℕ) :
    fieldRead type (fuel + 1) name ≠ .error .outOfFuel := by
  intro hread
  rw [fieldRead, h] at hread
  split at hread <;> cases hread

/-- **A field is looked for within as many names as a type without loops has.** -/
theorem fieldRead_ne_outOfFuel {type : ResolvedObjectType Ctx}
    (hloop : ∀ p, ¬ TransGen (Edge (successors type)) p p)
    (harrow : ∀ p rules rule relation target, get type.permissions p = some rules → rule ∈ rules →
      rule.ref = .arrow relation target → (get type.relations relation).isSome)
    {fuel : ℕ} {left : List Str} {name : Str} (hname : name ∈ permissionKeys type)
    (hleft : ∀ q ∈ left, q ∈ permissionKeys type ∧ TransGen (Edge (successors type)) q name)
    (hnodup : left.Nodup) (hfuel : (permissionKeys type).length + 1 < fuel + left.length) :
    fieldRead type fuel name ≠ .error .outOfFuel := by
  induction fuel generalizing left name with
  | zero =>
    have := length_lt_of_reaches (fun p _ => hloop p) hname hleft hnodup
    omega
  | succ fuel ih =>
    have hlt := length_lt_of_reaches (fun p _ => hloop p) hname hleft hnodup
    obtain ⟨fuel, rfl⟩ : ∃ f, fuel = f + 1 := ⟨fuel - 1, by omega⟩
    intro hread
    obtain ⟨rules, hrules⟩ := Option.isSome_iff_exists.mp (mem_permissionKeys.mp hname)
    rw [fieldRead, hrules] at hread
    split at hread
    · cases hread
    · cases hread
    obtain ⟨rule, hrule, hread⟩ := List.findSomeM?_error hread
    split at hread
    case h_1 other href =>
      by_cases hother : (get type.permissions other).isSome
      · have hedge : other ∈ successors type name :=
          mem_successors.mpr ⟨⟨rules, hrules, rule, hrule, href⟩, hother⟩
        have hnew : name ∉ left := fun hm => hloop name (hleft name hm).2
        have hleft' : ∀ q ∈ left.concat name, q ∈ permissionKeys type ∧
            TransGen (Edge (successors type)) q other := fun q hq => by
          obtain hq | hq := List.mem_append.mp (List.concat_eq_append ▸ hq)
          · exact ⟨(hleft q hq).1, (hleft q hq).2.tail hedge⟩
          · rw [List.mem_singleton.mp hq]
            exact ⟨hname, TransGen.single hedge⟩
        refine ih (mem_permissionKeys.mpr hother) hleft' (hnodup.concat hnew) ?_ hread
        rw [List.length_concat]
        omega
      · exact fieldRead_of_none (Option.not_isSome_iff_eq_none.mp hother) fuel hread
    case h_2 relation target href =>
      obtain ⟨r, hr⟩ := Option.isSome_iff_exists.mp (harrow _ _ _ _ _ hrules hrule href)
      rw [fieldRead, hr] at hread
      cases r <;> cases hread

/-! ## Accepted models -/

/-- Resolving accepted a model. -/
structure Accepted (where_ : Str) (model : ResolvedModel Ctx) : Prop where
  loops : refuseLoops where_ model.types = .ok ()
  data : refuseDataBeyondRoot where_ model.types = .ok ()

section Accepted

variable {where_ : Str} {model : ResolvedModel Ctx}

/-- A check of what a name reads that answered found nothing. -/
theorem not_reads {type : ResolvedObjectType Ctx} {name : Str} {f : Str → Except Failure Unit}
    (hf : ∀ field, f field ≠ .ok ())
    (h : (do
      match ← fieldOfName type name with
      | none => pure ()
      | some field => f field : Except Failure Unit) = .ok ()) : ¬ Reads type name := by
  intro hreads
  obtain ⟨read, hread, h⟩ := Except.bind_ok.mp h
  cases read with
  | none => exact hreads.found _ hread
  | some field => exact hf field h

/-- **What a subject set reaches reads no field.** -/
theorem Accepted.set (h : Accepted where_ model) {e : Str × ResolvedObjectType Ctx}
    (he : e ∈ model.types) {name type relation : Str} {holders : List Holder}
    (hrelation : get e.2.relations name = some (.stored holders))
    (hholder : .set type relation ∈ holders) {target : ResolvedObjectType Ctx}
    (htarget : get model.types type = some target) : ¬ Reads target relation := by
  obtain ⟨_, hrelations, -⟩ := Except.bind_ok.mp (List.forM_ok.mp h.data e he)
  have hholders := List.forM_ok.mp (List.forM_ok.mp hrelations _ (mem_of_get hrelation)) _ hholder
  simp only [htarget] at hholders
  exact not_reads (by simp) hholders

/-- **What an arrow reaches reads no field.** -/
theorem Accepted.arrow (h : Accepted where_ model) {e : Str × ResolvedObjectType Ctx}
    (he : e ∈ model.types) {permission : Str} {rules : List (ResolvedRule Ctx)}
    (hrules : get e.2.permissions permission = some rules) {rule : ResolvedRule Ctx}
    (hrule : rule ∈ rules) {relation target name : Str} (href : rule.ref = .arrow relation target)
    (hname : name ∈ reachedBy e.2 relation) {type : ResolvedObjectType Ctx}
    (htype : get model.types name = some type) : ¬ Reads type target := by
  obtain ⟨_, -, hpermissions⟩ := Except.bind_ok.mp (List.forM_ok.mp h.data e he)
  have hrefs := List.forM_ok.mp (List.forM_ok.mp hpermissions _ (mem_of_get hrules)) _ hrule
  simp only [href] at hrefs
  have hnames := List.forM_ok.mp hrefs _ hname
  simp only [htype] at hnames
  exact not_reads (by simp) hnames

/-- A model without loops is accepted or refused with a `TypeError`: the search for a field has fuel
enough. -/
theorem refuseDataBeyondRoot_ne_outOfFuel (hloops : refuseLoops where_ model.types = .ok ()) :
    refuseDataBeyondRoot where_ model.types ≠ .error .outOfFuel := by
  have hread : ∀ {type target name}, get model.types type = some target →
      fieldOfName target name ≠ .error .outOfFuel := by
    intro type target name htarget
    have hentry := mem_of_get htarget
    by_cases hname : (get target.permissions name).isSome
    · refine fieldRead_ne_outOfFuel ((refuseLoops_ok_iff where_ model.types).mp hloops _ hentry)
        (fun p rules rule relation target' hrules hrule href => ?_) (mem_permissionKeys.mpr hname)
        (List.forall_mem_nil _) List.nodup_nil (by simp [permissionKeys])
      have hchecked := model.checked.rules _ hentry _ (mem_of_get hrules) rule hrule
      rw [href, RuleRef.checked, Option.any_eq_true_iff_get] at hchecked
      exact hchecked.1
    · exact fieldRead_of_none (Option.not_isSome_iff_eq_none.mp hname) _
  have hthrow : ∀ {target : ResolvedObjectType Ctx} {name : Str} {f : Str → Str},
      fieldOfName target name ≠ .error .outOfFuel →
      (do
        match ← fieldOfName target name with
        | none => pure ()
        | some field =>
          throw (.typeError (f field)) : Except Failure Unit) ≠ .error .outOfFuel := by
    intro target name f hne h
    obtain h | ⟨read, -, h⟩ := Except.bind_error.mp h
    · exact hne h
    · cases read <;> cases h
  intro h
  obtain ⟨e, -, h⟩ := List.forM_error h
  obtain h | ⟨_, -, h⟩ := Except.bind_error.mp h
  · obtain ⟨r, -, h⟩ := List.forM_error h
    split at h
    · cases h
    obtain ⟨holder, -, h⟩ := List.forM_error h
    split at h
    · cases h
    split at h
    · cases h
    case h_2 htarget => exact hthrow (hread htarget) h
  · obtain ⟨p, -, h⟩ := List.forM_error h
    obtain ⟨rule, -, h⟩ := List.forM_error h
    split at h
    · cases h
    obtain ⟨name, -, h⟩ := List.forM_error h
    split at h
    · cases h
    case h_2 htype => exact hthrow (hread htype) h

end Accepted

end Janus.Permissions
