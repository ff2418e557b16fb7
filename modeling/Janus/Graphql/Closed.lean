import Janus.Graphql.Guard

/-!
# Graphql/Closed — a guarded field fails closed

Each part of a guard that ends leaves the answers it asked for in what was asked (`Knows`): the
user's, the session's, and for every value a path reaches an id, its object and a check answered
`true`.  A resolver is asked last, so it finds them all (`guarded_closed`).
-/

namespace Janus.Graphql

open Js Insertion Calls

variable {V E : Type}

/-! ## What was met -/

/-- The object a target names, found: held by the path, loaded, or named by its id alone. -/
inductive Found (log : Asked V E) (type id : Str) (holder : Option Data) (load : Bool) :
    ObjectLike → Prop
  | held {o : Data} (hname : isNameable id = true) (h : holder = some o) :
      Found log type id holder load ⟨type, id, some o⟩
  | loaded {o : Data} (hname : isNameable id = true) (h : holder = none) (hload : load = true)
      (hmem : ⟨.load type id, .ok (.object o)⟩ ∈ log) :
      Found log type id holder load ⟨type, id, some o⟩
  | named (hname : isNameable id = true) (h : holder = none) (hload : load = false) :
      Found log type id holder load ⟨type, id, none⟩

/-- `can` answered that the user holds the permission on the object an id names. -/
def Held (log : Asked V E) (asking : Asking) (permission type id : Str) (holder : Option Data)
    (load : Bool) : Prop :=
  ∃ object ctx, Found log type id holder load object ∧
    ⟨.check asking.fresh asking.user permission object ctx, .ok true⟩ ∈ log

theorem Found.later {log log' : Asked V E} {type id : Str} {holder : Option Data} {load : Bool}
    {object : ObjectLike} (hlog : log <+: log') (h : Found log type id holder load object) :
    Found log' type id holder load object := by
  cases h with
  | held hname h => exact .held hname h
  | loaded hname h hload hmem => exact .loaded hname h hload (hlog.subset hmem)
  | named hname h hload => exact .named hname h hload

theorem Held.later {log log' : Asked V E} {asking : Asking} {permission type id : Str}
    {holder : Option Data} {load : Bool} (hlog : log <+: log')
    (h : Held log asking permission type id holder load) :
    Held log' asking permission type id holder load := by
  obtain ⟨object, ctx, hfound, hcheck⟩ := h
  exact ⟨object, ctx, hfound.later hlog, hlog.subset hcheck⟩

/-! ## Each part of a guard -/

/-- Asking anything but a check or a resolver is free. -/
def Free (P : Asked V E → Ask V E → Prop) : Prop :=
  ∀ log a, (∀ fresh user permission object ctx, a ≠ .check fresh user permission object ctx) →
    a ≠ .resolve → a ≠ .subscribe → P log a

/-- Asking anything but a resolver is free. -/
def Quiet (P : Asked V E → Ask V E → Prop) : Prop :=
  ∀ log a, a ≠ .resolve → a ≠ .subscribe → P log a

theorem Quiet.free {P : Asked V E → Ask V E → Prop} (hP : Quiet P) : Free P :=
  fun log a _ => hP log a

section Parts

variable {P : Asked V E → Ask V E → Prop} {log : Asked V E} (permission : PermissionCheck)

section Free

variable (hP : Free P)

include hP

/-- **`Promise.all` answers only what all answered.** -/
theorem all_knows {α : Type} (settled : List (Except (Refusal E) α)) :
    Knows P (fun _ r => ∀ as, r = .ok as → settled = as.map .ok) log (all settled) := by
  rw [all]
  split
  case h_1 hnone =>
    rintro _ ⟨⟩
    induction settled with
    | nil => rfl
    | cons s settled ih =>
      cases s with
      | error e => simp at hnone
      | ok a => simpa using ih (by simpa using hnone)
  case h_2 =>
    refine Knows.perform_bind (hP log _ nofun nofun nofun) fun r => ?_
    rintro _ ⟨⟩

/-- **An object answered is found.** -/
theorem objectOf_knows (target : Target) :
    Knows P (fun log' r => ∀ settled, r = .ok settled → ∀ object, settled = .ok (some object) →
      Found log' permission.type target.id target.holder permission.load object) log
      (objectOf (V := V) (E := E) permission target) := by
  rw [objectOf]
  split
  · rintro _ ⟨⟩ _ ⟨⟩
  case isFalse hname =>
  rw [Bool.not_eq_true, Bool.not_eq_false'] at hname
  split
  case h_1 holder hholder =>
    rintro _ ⟨⟩ _ ⟨⟩
    exact .held hname hholder
  case h_2 hholder =>
  split
  case isTrue hload =>
    rintro _ ⟨⟩ _ ⟨⟩
    exact .named hname hholder (by simpa using hload)
  case isFalse hload =>
    refine Knows.perform_bind (hP log _ nofun nofun nofun) fun r => ?_
    match r with
    | .error e => rintro _ ⟨⟩ _ ⟨⟩
    | .ok .null => rintro _ ⟨⟩ _ ⟨⟩
    | .ok (.other typeOf) => rintro _ ⟨⟩ _ ⟨⟩
    | .ok (.object o) =>
      rintro _ ⟨⟩ _ ⟨⟩
      exact .loaded hname hholder (by simpa using hload) (by simp)

/-- A `ctx` is answered where a condition is reached. -/
theorem ctxOf_knows (object : ObjectLike) :
    Knows P (fun _ r => ∀ settled, r = .ok settled → ∀ ctx, settled = .ok ctx →
      ctx.isSome = permission.condition) log (ctxOf (V := V) (E := E) permission object) := by
  rw [ctxOf]
  split
  case isTrue hcondition =>
    refine Knows.perform_bind (hP log _ nofun nofun nofun) fun r => ?_
    match r with
    | .error e => rintro _ ⟨⟩ _ ⟨⟩
    | .ok ctx =>
      rintro _ ⟨⟩ _ ⟨⟩
      exact hcondition.symm
  case isFalse hcondition =>
    rintro _ ⟨⟩ _ ⟨⟩
    exact (Bool.not_eq_true _ ▸ hcondition).symm

end Free

variable (hP : Quiet P)

include hP

/-- **A check that answered `true` was asked.** -/
theorem askCheck_knows (asking : Asking) (question : ObjectLike × Except (Refusal E) (Option V)) :
    Knows P (fun log' r => ∀ settled, r = .ok settled → settled = .ok true →
      ∃ ctx, ⟨.check asking.fresh asking.user permission.name question.1 ctx, .ok true⟩ ∈ log') log
      (askCheck permission asking question) := by
  rw [askCheck]
  split
  · rintro _ ⟨⟩ ⟨⟩
  case h_2 ctx _ =>
    refine Knows.perform_bind (hP log _ nofun nofun) fun r => ?_
    match r with
    | .error e => rintro _ ⟨⟩ ⟨⟩
    | .ok false => rintro _ ⟨⟩ ⟨⟩
    | .ok true =>
      rintro _ ⟨⟩ ⟨⟩
      exact ⟨ctx, by simp⟩

omit hP in
/-- A list without a gap. -/
theorem eq_map_some {objects : List (Option ObjectLike)} (h : none ∉ objects) :
    ∃ found : List ObjectLike, objects = found.map some := by
  induction objects with
  | nil => exact ⟨[], rfl⟩
  | cons o objects ih =>
    obtain ⟨found, rfl⟩ := ih fun hmem => h (List.mem_cons_of_mem o hmem)
    cases o with
    | none => exact absurd List.mem_cons_self h
    | some object => exact ⟨object :: found, rfl⟩

/-- **A `@permission` enforced is held** on every object its `id:` names. -/
theorem enforcePermission_knows (asking : Asking) :
    Knows P (fun log' r => r = .ok () →
      ∃ targets, targetsOf permission.path asking.parent asking.args = some targets ∧
        ∀ target ∈ targets, Held log' asking permission.name permission.type target.id target.holder
          permission.load) log (enforcePermission (V := V) (E := E) permission asking) := by
  rw [enforcePermission]
  split
  · rintro ⟨⟩
  case h_2 targets htargets =>
  refine Knows.bind ((Knows.each (fun hlog h object hobject => (h object hobject).later hlog)
    fun log target _ => objectOf_knows permission hP.free target).mono fun log₁ r _ hr => ?_)
  match r with
  | .error e => rintro ⟨⟩
  | .ok settled =>
  have hfound := hr settled rfl
  refine Knows.bind ((all_knows hP.free settled).mono fun log₂ r hlog₂ hr => ?_)
  match r with
  | .error e => rintro ⟨⟩
  | .ok objects =>
  obtain rfl := hr objects rfl
  dsimp only
  split
  · rintro ⟨⟩
  case isFalse hlength =>
  obtain ⟨found, rfl⟩ := eq_map_some (by simpa using hlength)
  rw [List.filterMap_map, Function.id_comp, List.filterMap_some]
  refine Knows.bind ((Knows.each (fun _ _ => trivial)
    fun log object _ => (ctxOf_knows permission hP.free object).mono fun _ _ _ _ _ _ =>
    trivial).mono
      fun log₃ r hlog₃ hr => ?_)
  match r with
  | .error e => rintro ⟨⟩
  | .ok ctxs =>
  have hctxs := (hr ctxs rfl).length_eq
  refine Knows.bind ((Knows.each (fun hlog h hanswer => (h hanswer).imp
    fun ctx hmem => hlog.subset hmem)
    fun log question _ => askCheck_knows permission hP asking question).mono fun log₄ r
    hlog₄ hr => ?_)
  match r with
  | .error e => rintro ⟨⟩
  | .ok settled =>
  have hasked := hr settled rfl
  refine Knows.bind ((all_knows hP.free settled).mono fun log₅ r hlog₅ hr => ?_)
  match r with
  | .error e => rintro ⟨⟩
  | .ok answers =>
  obtain rfl := hr answers rfl
  dsimp only
  split
  · rintro ⟨⟩
  case isFalse hanswers =>
  intro _
  refine ⟨targets, htargets, fun target htarget => ?_⟩
  obtain ⟨s, hs, hobject⟩ := hfound.exists_right htarget
  obtain ⟨o, ho, rfl⟩ := List.mem_map.mp hs
  obtain ⟨object, hmem, rfl⟩ := List.mem_map.mp ho
  have hzip : object ∈ (found.zip ctxs).map Prod.fst := by rwa [List.map_fst_zip hctxs.le]
  obtain ⟨question, hquestion, rfl⟩ := List.mem_map.mp hzip
  obtain ⟨answer, hanswer, hcheck⟩ := hasked.exists_right hquestion
  obtain ⟨b, hb, rfl⟩ := List.mem_map.mp hanswer
  have htrue : b = true := by
    cases b with
    | true => rfl
    | false => exact absurd hb hanswers
  obtain ⟨ctx, hctx⟩ := hcheck (htrue ▸ rfl)
  exact ⟨question.1, ctx, (hobject question.1 rfl).later
    (hlog₂.trans (hlog₃.trans (hlog₄.trans hlog₅))),
    hlog₅.subset hctx⟩

/-- **A session found fresh** was asked for, and was younger. -/
theorem freshSession_knows (maxAgeMs : ℤ) :
    Knows P (fun log' r => r = .ok () → ∃ session now, ⟨.session, .ok (some session)⟩ ∈ log' ∧
      ⟨.now, now⟩ ∈ log' ∧ now - session.authenticatedAt < maxAgeMs) log
      (freshSession (V := V) (E := E) maxAgeMs) := by
  rw [freshSession]
  refine Knows.perform_bind (hP log _ nofun nofun) fun r => ?_
  match r with
  | .error e => rintro ⟨⟩
  | .ok none => rintro ⟨⟩
  | .ok (some session) =>
    dsimp only
    split
    · rintro ⟨⟩
    refine Knows.perform_bind (hP _ _ nofun nofun) fun now => ?_
    split
    · rintro ⟨⟩
    case isFalse hyoung =>
      intro _
      exact ⟨session, now, by simp, by simp, not_le.mp hyoung⟩

theorem enforceAge_knows (maxAgeMs : Option ℤ) :
    Knows P (fun log' r => r = .ok () → ∀ ms, maxAgeMs = some ms → ∃ session now,
      ⟨.session, .ok (some session)⟩ ∈ log' ∧ ⟨.now, now⟩ ∈ log' ∧
        now - session.authenticatedAt < ms) log (enforceAge (V := V) (E := E) maxAgeMs) := by
  cases maxAgeMs with
  | none => rintro _ _ ⟨⟩
  | some maxAgeMs =>
    refine (freshSession_knows hP maxAgeMs).mono fun log' r _ hr hok ms hms => ?_
    cases hms
    exact hr hok

/-- What a check that was enforced leaves. -/
def Checked (log : Asked V E) (asking : Asking) (check : PermissionCheck) : Prop :=
  ∃ targets, targetsOf check.path asking.parent asking.args = some targets ∧
    ∀ target ∈ targets, Held log asking check.name check.type target.id target.holder check.load

theorem enforcePermissions_knows (permissions : List PermissionCheck) (access : Bool)
    (asking : Asking) :
    Knows P (fun log' r => r = .ok () → ∀ check ∈ permissions, Checked log' asking check) log
      (enforcePermissions (V := V) (E := E) permissions access asking) := by
  rw [enforcePermissions.eq_def]
  split
  · exact fun _ check hcheck => absurd hcheck List.not_mem_nil
  case h_2 first rest =>
  split
  · rintro ⟨⟩
  have heach : Knows P (fun log' r => ∀ units, r = .ok units →
      List.Forall₂ (fun check _ => Checked log' asking check) (first :: rest) units) log
      (Prog.each (fun check => enforcePermission (V := V) (E := E) check asking)
        (first :: rest)) :=
    Knows.each (fun hlog ⟨targets, htargets, hheld⟩ => ⟨targets, htargets, fun target htarget =>
      (hheld target htarget).later hlog⟩) fun log check _ =>
        (enforcePermission_knows check hP asking).mono fun _ _ _ h _ hr => h hr
  refine Knows.bind (heach.mono fun log₁ r _ hr => ?_)
  match r with
  | .error e => rintro ⟨⟩
  | .ok units =>
    intro _ check hcheck
    obtain ⟨_, -, hchecked⟩ := (hr units rfl).exists_right hcheck
    exact hchecked

/-- What a requirement that was met leaves. -/
structure Enforced (requirement : Requirement) (resolving : Resolving) (log : Asked V E)
    (user : User) : Prop where
  signedIn : ⟨.user, .ok (some user)⟩ ∈ log
  types : ∀ ts, requirement.types = some ts → user.type ∈ ts
  fresh : ∀ maxAgeMs, requirement.maxAgeMs = some maxAgeMs → ∃ session now,
    ⟨.session, .ok (some session)⟩ ∈ log ∧ ⟨.now, now⟩ ∈ log ∧
      now - session.authenticatedAt < maxAgeMs
  permissions : ∀ check ∈ requirement.permissions,
    Checked log ⟨user, resolving.parent, resolving.args, resolving.fresh⟩ check

/-- **A requirement enforced was met.** -/
theorem enforce_knows (requirement : Requirement) (resolving : Resolving) :
    Knows P (fun log' r => r = .ok () → ∃ user, Enforced requirement resolving log' user) log
      (enforce (V := V) (E := E) requirement resolving) := by
  rw [enforce]
  split
  · rintro ⟨⟩
  refine Knows.perform_bind (hP log _ nofun nofun) fun r => ?_
  match r with
  | .error e => rintro ⟨⟩
  | .ok none => rintro ⟨⟩
  | .ok (some user) =>
  dsimp only
  split
  · rintro ⟨⟩
  case isFalse htypes =>
  refine Knows.bind ((enforceAge_knows hP requirement.maxAgeMs).mono fun log₁ r hlog₁ hr => ?_)
  match r with
  | .error e => rintro ⟨⟩
  | .ok () =>
  have hfresh := hr rfl
  refine (enforcePermissions_knows hP requirement.permissions resolving.access _).mono
    fun log₂ r hlog₂ hr hok => ⟨user, ?_, fun ts hts => ?_, fun ms hms => ?_, hr hok⟩
  · exact (hlog₁.trans hlog₂).subset (by simp)
  · simpa [hts] using htypes
  · obtain ⟨session, now, hsession, hnow, hyoung⟩ := hfresh ms hms
    exact ⟨session, now, hlog₂.subset hsession, hlog₂.subset hnow, hyoung⟩

end Parts

/-! ## A guarded field -/

/-- **Everything written for a field was met**, before its resolver. -/
structure Met (type : ObjectType) (field : Field) (wiring : Wiring) (resolving : Resolving)
    (fresh : Bool) (log : Asked V E) (user : User) : Prop where
  /-- a user is signed in -/
  signedIn : ⟨.user, .ok (some user)⟩ ∈ log
  /-- of a type every `type:` names -/
  types : ∀ at_ ∈ locations type field, ∀ named, some named ∈ at_.node.authenticated →
    user.type ∈ named
  /-- on a session younger than every `maxAge` -/
  fresh : fresh = true → ∀ at_ ∈ locations type field, ∀ maxAge ∈ at_.node.fresh,
    ∃ session now, ⟨.session, .ok (some session)⟩ ∈ log ∧ ⟨.now, now⟩ ∈ log ∧
      now - session.authenticatedAt < maxAge * 1000
  /-- and every `@permission` names a path all of whose steps stand on objects, whose every value is
  an id of an object found, for which `can` answered `true`; a path under `parent` reaches one -/
  permissions : ∀ at_ ∈ locations type field, ∀ args ∈ at_.node.permission, ∃ path : IdPath,
    parsePath (PermissionUse.idText ⟨args, at_.where_, at_.onType⟩) = some path ∧
    (∀ init, init <+: path.init → ∀ o, Reaches (path.rootOf resolving.parent resolving.args) init o →
      o.isObject = true) ∧
    (∀ o v, Reaches (path.rootOf resolving.parent resolving.args) path.init o →
      Element (o.read path.last) v → ∃ id, v.idOf = some id ∧
        Held log ⟨user, resolving.parent, resolving.args, resolving.fresh⟩ args.name args.type id
          (if path.held then some o else none)
          (!path.held && get wiring.loaders args.type = some .function)) ∧
    (path.root = .parent →
      ∃ v, Reaches (path.rootOf resolving.parent resolving.args) path.segments v)

/-- A requirement that asks everything written, met. -/
theorem Requires.met {type : ObjectType} {field : Field} {wiring : Wiring}
    {requirement requirement' : Requirement} {resolving : Resolving} {log : Asked V E} {user : User}
    {fresh : Bool} (h : Requires type field wiring requirement)
    (henforced : Enforced requirement' resolving log user)
    (htypes : requirement'.types = requirement.types)
    (hpermissions : requirement'.permissions = requirement.permissions)
    (hfresh : fresh = true → requirement'.maxAgeMs = requirement.maxAgeMs) :
    Met type field wiring resolving fresh log user where
  signedIn := henforced.signedIn
  types at_ hat named hnamed := by
    obtain ⟨ts, hts, hsub⟩ := h.types at_ hat named hnamed
    exact hsub (henforced.types ts (htypes.trans hts))
  fresh hf at_ hat maxAge hmax := by
    obtain ⟨ms, hms, hle⟩ := h.fresh at_ hat maxAge hmax
    obtain ⟨session, now, hsession, hnow, hyoung⟩ := henforced.fresh ms ((hfresh hf).trans hms)
    exact ⟨session, now, hsession, hnow, hyoung.trans_le hle⟩
  permissions at_ hat args hargs := by
    obtain ⟨check, hcheck, hasks⟩ := h.permissions at_ hat args hargs
    obtain ⟨targets, htargets, hheld⟩ := henforced.permissions check (hpermissions ▸ hcheck)
    obtain ⟨hobjects, hvalues, hsome⟩ := targetsOf_some htargets
    refine ⟨check.path, hasks.path, hobjects, fun o v ho hv => ?_, hsome⟩
    obtain ⟨id, hid, htarget⟩ := hvalues o v ho hv
    have hheld := hheld _ htarget
    rw [hasks.name, hasks.type, hasks.load, PermissionCheck.loads, hasks.type] at hheld
    exact ⟨id, hid, hheld⟩

/-- **A resolver guarded is asked after what it requires was met.** -/
theorem guarded_knows {resolver : Ask V E} {requirement : Requirement} {resolving : Resolving} :
    Knows (fun log a => a = .resolve ∨ a = .subscribe →
        ∃ user, Enforced requirement resolving log user) (fun _ _ => True) []
      (guarded (V := V) (E := E) resolver requirement resolving) := by
  have hquiet : Quiet (V := V) (E := E) fun log a => a = .resolve ∨ a = .subscribe →
      ∃ user, Enforced requirement resolving log user :=
    fun log a hresolve hsubscribe h => absurd h (not_or.mpr ⟨hresolve, hsubscribe⟩)
  refine Knows.bind ((enforce_knows hquiet requirement resolving).mono fun log r _ hr => ?_)
  match r with
  | .error e => trivial
  | .ok () => exact Knows.perform_bind (fun _ => hr rfl) fun _ => trivial

/-- **A guarded field fails closed.** Whatever is answered or rejected, and whatever the parent and
the arguments hold: of a field for which something is written, a resolver is asked only once all of
it was met — a subscription's events without their session's freshness. -/
theorem guarded_closed {type : ObjectType} {field : Field} {known : List Str} {wiring : Wiring}
    {resolvers : Resolvers V E} (hbuilt : applyField type field known wiring = .ok resolvers)
    (hwritten : ∃ at_ ∈ locations type field,
      at_.node.authenticated ≠ [] ∨ at_.node.fresh ≠ [] ∨ at_.node.permission ≠ [])
    (resolving : Resolving) :
    (∀ log k, Trace (resolvers.resolve resolving) log (.call .resolve k) →
      ∃ user, Met type field wiring resolving (!field.subscribes) log user) ∧
    ∀ subscribe, resolvers.subscribe = some subscribe →
      ∀ log k, Trace (subscribe resolving) log (.call .subscribe k) →
        ∃ user, Met type field wiring resolving true log user := by
  obtain ⟨built, hbuilt, h⟩ := Except.bind_ok.mp hbuilt
  cases built with
  | none =>
    obtain ⟨at_, hat, hsome⟩ := hwritten
    obtain ⟨hauthenticated, hfresh, hpermission⟩ := requirementOf_none hbuilt at_ hat
    simp [hauthenticated, hfresh, hpermission] at hsome
  | some requirement =>
    have hrequires := requirementOf_ok hbuilt
    cases h
    split
    case isTrue hsubscribes =>
      refine ⟨fun log k ht => ?_, fun subscribe hsubscribe log k ht => ?_⟩
      · obtain ⟨user, henforced⟩ := guarded_knows.trace ht (Or.inl rfl)
        exact ⟨user, hrequires.met henforced rfl rfl (by simp [hsubscribes])⟩
      · cases hsubscribe
        obtain ⟨user, henforced⟩ := guarded_knows.trace ht (Or.inr rfl)
        exact ⟨user, hrequires.met henforced rfl rfl fun _ => rfl⟩
    case isFalse hsubscribes =>
      refine ⟨fun log k ht => ?_, fun subscribe hsubscribe => by cases hsubscribe⟩
      obtain ⟨user, henforced⟩ := guarded_knows.trace ht (Or.inl rfl)
      exact ⟨user, hrequires.met henforced rfl rfl fun _ => rfl⟩

/-- What staff alone may ask. -/
def query : ObjectType where
  name := js "Query"
  node := { authenticated := [some [js "staff"]] }
  interfaces := []

/-- A record, for whoever views it and proved who they are in the last ten minutes. -/
def recordField : Field where
  name := js "record"
  node := { fresh := [600], permission := [⟨js "view", js "record", none, .notFound⟩] }
  args := [js "id"]
  subscribes := false

def recordWiring : Wiring where
  model := some
    { types := [js "record"]
      definition := [(js "record",
        { related := [(js "viewers", .holders [js "staff"])]
          permits := [(js "view", [.text (js "viewers")])] })] }
  loaders := []
  conditions := []

/-- What that field requires. -/
def recordRequirement : Requirement where
  where_ := js "Query.record"
  label := js "@authenticated on Query (read by Query.record)"
  types := some [js "staff"]
  maxAgeMs := some 600000
  permissions := [{
    label := js "@permission on Query.record"
    name := js "view"
    type := js "record"
    onDeny := .notFound
    path := ⟨js "args.id", .args, [js "id"], List.cons_ne_nil _ _⟩
    load := false
    condition := false }]

/-- Record `r1`, asked for. -/
def askingRecord : Resolving where
  parent := .undefined
  args := .object fun name => if name = js "id" then .str (js "r1") else .undefined
  janus := true
  access := true
  fresh := false

/-- Ada, on the staff, signed in a second ago, views record `r1`. -/
theorem guarded_closed_record :
    ∃ user, Met query recordField recordWiring askingRecord true
      ([⟨.user, .ok (some ⟨js "staff", js "ada"⟩)⟩, ⟨.session, .ok (some ⟨0, js "ada"⟩)⟩,
        ⟨.now, (1000 : ℤ)⟩,
        ⟨.check false ⟨js "staff", js "ada"⟩ (js "view") ⟨js "record", js "r1", none⟩ none,
          .ok true⟩] : Asked Unit Unit) user := by
  have hwritten : ∃ at_ ∈ locations query recordField,
      at_.node.authenticated ≠ [] ∨ at_.node.fresh ≠ [] ∨ at_.node.permission ≠ [] :=
    ⟨⟨js "Query", true, query.node⟩, List.Mem.head _, Or.inl (List.cons_ne_nil _ _)⟩
  have hbuilt : applyField (V := Unit) (E := Unit) query recordField [js "staff"] recordWiring =
      .ok ⟨guarded .resolve recordRequirement, none⟩ := rfl
  refine (guarded_closed hbuilt hwritten askingRecord).1 _ (fun _ => .done (.ok ())) ?_
  exact .cons (.cons (.cons (.cons .nil)))

end Janus.Graphql
