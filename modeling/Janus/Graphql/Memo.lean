import Janus.Permissions.Decides

/-!
# Graphql/Memo — the permission checks of one request, remembered

A question's key is the question in the notation.  It tells apart whatever `can()` tells apart but
one thing: the mark by which `setOf()` makes a set on a user type, where a user of that type may
carry a `relation` of its own.

* `keyOf_eq` — two questions of one key are one question to `can()`, or they are `Confused`.
* `memoized_eq_can_iff` — the memo is transparent exactly when no two questions asked are.
-/

namespace Janus.Graphql

open Js Insertion Permissions

variable {Ctx : Type}

/-- What a check is called with.  `ctx` is `options?.ctx`, and a subject of `null` is nobody. -/
structure Question (Ctx : Type) where
  subject : Option Record
  permission : Str
  object : Record
  ctx : Option Ctx

/-- What a check's promise settles to. -/
abbrev Outcome := Except Failure Bool

/-- `NOTATION.test(id)`: whether the id holds an `@` or a `#`. -/
def hasNotation (id : Value) : Bool := id.toText.any fun u => u = 64 || u = 35

/-- The key of one question, in the notation, when it is remembered. -/
def keyOf (q : Question Ctx) : Option Str :=
  match q.subject, q.ctx with
  | some subject, none =>
    if hasNotation (q.object.field (js "id")) || hasNotation (subject.field (js "id")) then none
    else
      let set := ((subject.field (js "relation")).asString.map ((35 : CodeUnit) :: ·)).getD []
      some <| (q.object.field (js "type")).toText ++ (58 : CodeUnit) ::
        ((q.object.field (js "id")).toText ++ (35 : CodeUnit) ::
          (q.permission ++ (64 : CodeUnit) ::
            ((subject.field (js "type")).toText ++ (58 : CodeUnit) ::
              ((subject.field (js "id")).toText ++ set))))
  | _, _ => none

/-- One question asked through the memo: its answer, and the answers remembered after it.  A promise
is what it settles to, which a pure `can` fixes when it is asked. -/
def memoized (can : Question Ctx → Outcome) (answers : List (Str × Outcome)) (q : Question Ctx) :
    Outcome × List (Str × Outcome) :=
  match keyOf q with
  | none => (can q, answers)
  | some key =>
    match get answers key with
    | some known => (known, answers)
    | none => (can q, put answers key (can q))

/-- The promise remembered under `key` settles: a failure is forgotten. -/
def settled (answers : List (Str × Outcome)) (key : Str) : List (Str × Outcome) :=
  match get answers key with
  | some (.error _) => delete answers key
  | _ => answers

/-- What happens in a request: a question is asked, or a promise settles. -/
inductive Event (Ctx : Type) where
  | ask (q : Question Ctx)
  | settle (key : Str)

/-- The questions asked. -/
def asked (events : List (Event Ctx)) : List (Question Ctx) :=
  events.filterMap fun
    | .ask q => some q
    | .settle _ => none

/-- Every question asked of the memo, with its answer. -/
def answered (can : Question Ctx → Outcome) :
    List (Event Ctx) → List (Str × Outcome) → List (Question Ctx × Outcome)
  | [], _ => []
  | .ask q :: events, answers =>
    (q, (memoized can answers q).1) :: answered can events (memoized can answers q).2
  | .settle key :: events, answers => answered can events (settled answers key)

/-! ## What `can()` tells apart -/

/-- The subject as `can()` reads it. -/
def who (model : ResolvedModel Ctx) (q : Question Ctx) : Option (Except Failure Subject) :=
  q.subject.map fun r => subjectOf model (.record r) (js "can")

/-- One question to `can()`, an object's data being determined by its type and its id. -/
structure Same (model : ResolvedModel Ctx) (q q' : Question Ctx) : Prop where
  who : who model q = who model q'
  permission : q.permission = q'.permission
  type : q.object.field (js "type") = q'.object.field (js "type")
  id : q.object.field (js "id") = q'.object.field (js "id")
  ctx : q.ctx = q'.ctx

/-- `can` is a function of the question, over the questions asked. -/
def IsPure (model : ResolvedModel Ctx) (can : Question Ctx → Outcome) (qs : List (Question Ctx)) :
    Prop :=
  ∀ q ∈ qs, ∀ q' ∈ qs, Same model q q' → can q = can q'

/-- A question `can()` does not refuse: of an object and a name of the model, for nobody or a
subject it accepts. -/
structure Accepted (model : ResolvedModel Ctx) (q : Question Ctx) : Prop where
  subject : ∀ r, q.subject = some r → ∃ who, subjectOf model (.record r) (js "can") = .ok who
  object : ∃ root type, Permissions.objectOf model (.record q.object) (js "can") = .ok root ∧
    get model.types root.type = some type ∧ type.declares q.permission = true

/-- Two questions alike but for the mark: about a user with a `relation` of its own, and about the
set `setOf()` makes of that user and that relation. -/
structure Confused (model : ResolvedModel Ctx) (q q' : Question Ctx) : Prop where
  permission : q.permission = q'.permission
  type : q.object.field (js "type") = q'.object.field (js "type")
  id : q.object.field (js "id") = q'.object.field (js "id")
  ctx : q.ctx = none ∧ q'.ctx = none
  subjects : ∃ s s' type relation, q.subject = some s ∧ q'.subject = some s' ∧
    type ∈ model.subjects ∧
    s.field (js "type") = .str type ∧ s'.field (js "type") = .str type ∧
    s.field (js "id") = s'.field (js "id") ∧
    s.field (js "relation") = .str relation ∧ s'.field (js "relation") = .str relation ∧
    s.marked ≠ s'.marked

/-! ## What a key tells apart -/

theorem isId_notMem {id : Str} (h : isId id = true) :
    (64 : CodeUnit) ∉ id ∧ (35 : CodeUnit) ∉ id := by
  simp only [isId, Bool.and_eq_true, Bool.not_eq_true', List.any_eq_false] at h
  exact ⟨fun hm => h.2 _ hm rfl, fun hm => h.2 _ hm rfl⟩

/-- An accepted question about a subject, as text: no part but a relation holds the separator that
follows it. -/
structure Parts (q : Question Ctx) (s : Record) (type id subjectType subjectId : Str) : Prop where
  object_type : q.object.field (js "type") = .str type
  object_id : q.object.field (js "id") = .str id
  subject_type : s.field (js "type") = .str subjectType
  subject_id : s.field (js "id") = .str subjectId
  type_isName : isName type = true
  id_isId : isId id = true
  permission_isName : isName q.permission = true
  subjectType_isName : isName subjectType = true
  subjectId_isId : isId subjectId = true

theorem declares_isName {model : ResolvedModel Ctx} {type : Str} {t : ResolvedObjectType Ctx}
    {name : Str} (ht : get model.types type = some t) (h : t.declares name = true) :
    isName name = true := by
  rw [ResolvedObjectType.declares, Bool.or_eq_true, Option.isSome_iff_exists,
    Option.isSome_iff_exists] at h
  rcases h with ⟨r, hr⟩ | ⟨rules, hrules⟩
  · exact model.checked.relation_isName _ (mem_of_get ht) _ (mem_of_get hr)
  · exact model.checked.permission_isName _ (mem_of_get ht) _ (mem_of_get hrules)

theorem Accepted.parts {model : ResolvedModel Ctx} {q : Question Ctx} {s : Record}
    (h : Accepted model q) (hs : q.subject = some s) :
    ∃ type id subjectType subjectId, Parts q s type id subjectType subjectId ∧
      who model q = some (.ok
          (readAs (model.subjects.contains subjectType) s subjectType subjectId)) := by
  obtain ⟨root, type, hroot, ht, hd⟩ := h.object
  obtain ⟨hq, htype, hid, hisId⟩ := objectOf_ok hroot
  have hdata : q.object = root.data := Arg.record.inj hq
  obtain ⟨w, hw⟩ := h.subject s hs
  obtain ⟨s', subjectType, subjectId, hs', hst, hsi, hsid, rfl, hname⟩ := subjectOf_ok hw
  obtain rfl : s = s' := Arg.record.inj hs'
  refine ⟨root.type, root.id, subjectType, subjectId, ?_, ?_⟩
  · exact ⟨hdata ▸ htype, hdata ▸ hid, hst, hsi, model.checked.type_isName _ (mem_of_get ht), hisId,
      declares_isName ht hd, hname, hsid⟩
  · rw [who, hs, Option.map_some, hw]

/-- An id and the relation of a set after it are read back. -/
theorem set_inj {id id' : Str} {set set' : Option Str} (h : (35 : CodeUnit) ∉ id)
    (h' : (35 : CodeUnit) ∉ id')
    (heq : id ++ (set.map ((35 : CodeUnit) :: ·)).getD [] =
      id' ++ (set'.map ((35 : CodeUnit) :: ·)).getD []) : id = id' ∧ set = set' := by
  cases set with
  | none =>
    cases set' with
    | none => exact ⟨by simpa using heq, rfl⟩
    | some r' => exact absurd (by simp_all : (35 : CodeUnit) ∈ id) h
  | some r =>
    cases set' with
    | none => exact absurd (by simp [← (by simpa using heq : _ = id')] : (35 : CodeUnit) ∈ id') h'
    | some r' =>
      obtain ⟨rfl, rfl⟩ := append_cons_inj h h' heq
      exact ⟨rfl, rfl⟩

/-- The key of an accepted question, part by part. -/
theorem Parts.keyOf {q : Question Ctx} {s : Record} {type id subjectType subjectId : Str}
    (hp : Parts q s type id subjectType subjectId) (hs : q.subject = some s) (hctx : q.ctx = none) :
    keyOf q = some (type ++ (58 : CodeUnit) :: (id ++ (35 : CodeUnit) ::
      (q.permission ++ (64 : CodeUnit) :: (subjectType ++ (58 : CodeUnit) ::
        (subjectId ++ ((s.field (js "relation")).asString.map ((35 : CodeUnit) :: ·)).getD []))))) := by
  have hfree : ∀ {id : Str}, isId id = true → hasNotation (.str id) = false := by
    intro id h
    rw [hasNotation, List.any_eq_false]
    rintro u hu hsep
    rcases (by simpa using hsep : u = 64 ∨ u = 35) with rfl | rfl
    · exact (isId_notMem h).1 hu
    · exact (isId_notMem h).2 hu
  rw [Graphql.keyOf, hs, hctx]
  simp only [hp.object_type, hp.object_id, hp.subject_type, hp.subject_id, hfree hp.id_isId,
    hfree hp.subjectId_isId, Value.toText]
  rfl

/-- A question with a key has a subject and no `ctx`. -/
theorem keyOf_some {q : Question Ctx} {key : Str} (h : keyOf q = some key) :
    (∃ s, q.subject = some s) ∧ q.ctx = none := by
  rw [keyOf] at h
  split at h
  case h_1 s hs hctx => exact ⟨⟨s, hs⟩, hctx⟩
  case h_2 => cases h

/-- **Two accepted questions of one key are one question, or confused.** -/
theorem keyOf_eq {model : ResolvedModel Ctx} {q q' : Question Ctx} {key : Str}
    (h : Accepted model q) (h' : Accepted model q') (hk : keyOf q = some key)
    (hk' : keyOf q' = some key) : Same model q q' ∨ Confused model q q' := by
  obtain ⟨⟨s, hs⟩, hctx⟩ := keyOf_some hk
  obtain ⟨⟨s', hs'⟩, hctx'⟩ := keyOf_some hk'
  obtain ⟨type, id, subjectType, subjectId, hp, hwho⟩ := h.parts hs
  obtain ⟨type', id', subjectType', subjectId', hp', hwho'⟩ := h'.parts hs'
  have hkey := Option.some.inj
    (((hp.keyOf hs hctx).symm.trans (hk.trans hk'.symm)).trans (hp'.keyOf hs' hctx'))
  -- part by part, from the left
  obtain ⟨rfl, hrest⟩ := append_cons_inj (isName_notMem hp.type_isName).1
    (isName_notMem hp'.type_isName).1 hkey
  obtain ⟨rfl, hquestion⟩ := append_cons_inj (isId_notMem hp.id_isId).2 (isId_notMem hp'.id_isId).2
    hrest
  obtain ⟨hperm, hsubject⟩ := append_cons_inj (isName_notMem hp.permission_isName).2.2
    (isName_notMem hp'.permission_isName).2.2 hquestion
  obtain ⟨rfl, hset⟩ := append_cons_inj (isName_notMem hp.subjectType_isName).1
    (isName_notMem hp'.subjectType_isName).1 hsubject
  obtain ⟨rfl, hrel⟩ := set_inj (isId_notMem hp.subjectId_isId).2 (isId_notMem hp'.subjectId_isId).2
    hset
  have htype := hp.object_type.trans hp'.object_type.symm
  have hid := hp.object_id.trans hp'.object_id.symm
  by_cases hread : readAs (model.subjects.contains subjectType) s subjectType subjectId =
      readAs (model.subjects.contains subjectType) s' subjectType subjectId
  · exact Or.inl ⟨by rw [hwho, hwho', hread], hperm, htype, hid, hctx.trans hctx'.symm⟩
  -- read apart: the type is a user type, the relation a string, and one of the two is marked
  · refine Or.inr ⟨hperm, htype, hid, ⟨hctx, hctx'⟩, s, s', subjectType, ?_⟩
    have huser : model.subjects.contains subjectType = true := by
      by_contra huser
      rw [Bool.eq_false_of_not_eq_true huser] at hread
      exact hread (by rw [readAs, readAs, hrel]; rfl)
    have hmark : s.marked ≠ s'.marked := by
      intro hmark
      exact hread (by rw [readAs, readAs, hrel, hmark])
    obtain ⟨relation, hr⟩ : ∃ relation, (s.field (js "relation")).asString = some relation := by
      rw [← Option.isSome_iff_exists, Option.isSome_iff_ne_none]
      intro hr
      exact hread (by rw [readAs, readAs, ← hrel, hr]; simp only [ite_self])
    exact ⟨relation, hs, hs', by simpa using huser, hp.subject_type, hp'.subject_type,
      hp.subject_id.trans hp'.subject_id.symm, asString_eq.mp hr, asString_eq.mp (hrel ▸ hr), hmark⟩

/-- Two confused questions have one key… -/
theorem Confused.keyOf {model : ResolvedModel Ctx} {q q' : Question Ctx} (h : Accepted model q)
    (h' : Accepted model q') (hc : Confused model q q') :
    ∃ key, keyOf q = some key ∧ keyOf q' = some key := by
  obtain ⟨s, s', t, relation, hs, hs', _, ht, ht', hi, hr, hr', _⟩ := hc.subjects
  obtain ⟨type, id, subjectType, subjectId, hp, _⟩ := h.parts hs
  obtain ⟨type', id', subjectType', subjectId', hp', _⟩ := h'.parts hs'
  have hkey := hp.keyOf hs hc.ctx.1
  have hkey' := hp'.keyOf hs' hc.ctx.2
  obtain rfl : type = type' := Value.str.inj (hp.object_type.symm.trans (hc.type.trans hp'.object_type))
  obtain rfl : id = id' := Value.str.inj (hp.object_id.symm.trans (hc.id.trans hp'.object_id))
  obtain rfl : t = subjectType := Value.str.inj (ht.symm.trans hp.subject_type)
  obtain rfl : t = subjectType' := Value.str.inj (ht'.symm.trans hp'.subject_type)
  obtain rfl : subjectId = subjectId' :=
    Value.str.inj (hp.subject_id.symm.trans (hi.trans hp'.subject_id))
  exact ⟨_, hkey, by rw [hkey', hr, hr', hc.permission]⟩

/-- Whether `can()` reads the subject as a set. -/
def isSet (model : ResolvedModel Ctx) (q : Question Ctx) : Bool :=
  match who model q with
  | some (.ok (.set _)) => true
  | _ => false

/-- …and one of them is about a set, where the other is about a user. -/
theorem Confused.isSet_ne {model : ResolvedModel Ctx} {q q' : Question Ctx} (h : Accepted model q)
    (h' : Accepted model q') (hc : Confused model q q') : isSet model q ≠ isSet model q' := by
  obtain ⟨s, s', t, relation, hs, hs', huser, ht, ht', _, hr, hr', hmark⟩ := hc.subjects
  have hread : ∀ {q : Question Ctx} {s : Record}, Accepted model q → q.subject = some s →
      s.field (js "type") = .str t → s.field (js "relation") = .str relation →
      isSet model q = s.marked := by
    intro q s h hs ht hr
    obtain ⟨_, _, subjectType, _, hp, hwho⟩ := h.parts hs
    obtain rfl : t = subjectType := Value.str.inj (ht.symm.trans hp.subject_type)
    rw [isSet, hwho, readAs, List.contains_iff_mem.mpr huser, hr]
    cases s.marked <;> rfl
  rw [hread h hs ht hr, hread h' hs' ht' hr']
  exact hmark

/-! ## Over a whole request -/

section Run

variable {can : Question Ctx → Outcome}

theorem fst_answered (can : Question Ctx → Outcome) (events : List (Event Ctx))
    (answers : List (Str × Outcome)) :
    (answered can events answers).map Prod.fst = asked events := by
  induction events generalizing answers with
  | nil => rfl
  | cons event events ih =>
    cases event with
    | ask q => exact congrArg (q :: ·) (ih _)
    | settle key => exact ih _

/-- Every remembered answer is the one `can` gives to a question asked under its key. -/
def Kept (can : Question Ctx → Outcome) (qs : List (Question Ctx))
    (answers : List (Str × Outcome)) :
    Prop :=
  ∀ key out, get answers key = some out → ∃ q ∈ qs, keyOf q = some key ∧ out = can q

theorem Kept.settled {qs : List (Question Ctx)} {answers : List (Str × Outcome)}
    (h : Kept can qs answers) (key : Str) : Kept can qs (settled answers key) := by
  rw [Graphql.settled]
  split
  · intro k out hk
    rw [get_delete] at hk
    split at hk
    · cases hk
    · exact h k out hk
  · exact h

theorem Kept.memoized {qs : List (Question Ctx)} {answers : List (Str × Outcome)}
    (h : Kept can qs answers) {q : Question Ctx} (hq : q ∈ qs) :
    Kept can qs (memoized can answers q).2 := by
  rw [Graphql.memoized]
  split
  · exact h
  · rename_i key hkey
    split
    · exact h
    · intro k out hk
      rw [get_put] at hk
      split at hk
      case isTrue e => exact ⟨q, hq, e ▸ hkey, (Option.some.inj hk).symm⟩
      case isFalse => exact h k out hk

/-- **Where `can` answers all questions of one key alike**, the memo answers as `can` does. -/
theorem answered_eq_can {qs : List (Question Ctx)}
    (halike : ∀ q ∈ qs, ∀ q' ∈ qs, ∀ key, keyOf q = some key → keyOf q' = some key → can q = can q')
    {events : List (Event Ctx)} (hasked : asked events ⊆ qs) {answers : List (Str × Outcome)}
    (hkept : Kept can qs answers) : ∀ p ∈ answered can events answers, p.2 = can p.1 := by
  induction events generalizing answers with
  | nil => nofun
  | cons event events ih =>
    cases event with
    | settle key => exact ih hasked (hkept.settled key)
    | ask q =>
      have hq : q ∈ qs := hasked List.mem_cons_self
      have hrest : asked events ⊆ qs := fun q' h => hasked (List.mem_cons_of_mem _ h)
      rintro p hp
      rcases List.mem_cons.mp hp with rfl | hp
      · rw [memoized]
        split
        · rfl
        · rename_i key hkey
          dsimp only
          split
          · rename_i known hknown
            obtain ⟨q', hq', hkey', rfl⟩ := hkept key known hknown
            exact halike q' hq' q hq key hkey' hkey
          · rfl
      · exact ih hrest (hkept.memoized hq) p hp

/-! A `can` that never fails: what is remembered stays. -/

/-- Nothing remembered is a failure. -/
def Answers (answers : List (Str × Outcome)) : Prop :=
  ∀ key out, get answers key = some out → ∃ b, out = .ok b

theorem Answers.settled {answers : List (Str × Outcome)} (h : Answers answers) (key : Str) :
    settled answers key = answers := by
  rw [Graphql.settled]
  split
  case h_1 e he =>
    obtain ⟨b, hb⟩ := h key _ he
    cases hb
  case h_2 => rfl

theorem Answers.memoized (hcan : ∀ q, ∃ b, can q = .ok b) {answers : List (Str × Outcome)}
    (h : Answers answers) (q : Question Ctx) : Answers (memoized can answers q).2 := by
  rw [Graphql.memoized]
  split
  · exact h
  · split
    · exact h
    · intro k out hk
      rw [get_put] at hk
      split at hk
      · exact Option.some.inj hk ▸ hcan q
      · exact h k out hk

/-- What a key holds answers every later question of that key. -/
theorem memoized_known (can : Question Ctx → Outcome) {answers : List (Str × Outcome)} {key : Str}
    {out : Outcome}
    (hknown : get answers key = some out) (q : Question Ctx) :
    get (memoized can answers q).2 key = some out ∧
      (keyOf q = some key → (memoized can answers q).1 = out) := by
  rw [memoized]
  split
  case h_1 hkey => exact ⟨hknown, fun h => by rw [hkey] at h; cases h⟩
  case h_2 k hkey =>
    split
    case h_1 known hk =>
      refine ⟨hknown, fun h => ?_⟩
      rw [hkey] at h
      cases h
      exact Option.some.inj (hk.symm.trans hknown)
    case h_2 hk =>
      have hne : k ≠ key := by
        rintro rfl
        rw [hknown] at hk
        cases hk
      exact ⟨(get_put_ne answers _ hne).trans hknown,
        fun h => absurd (Option.some.inj (hkey.symm.trans h)) hne⟩

theorem memoized_first {answers : List (Str × Outcome)} {q : Question Ctx} {key : Str}
    (hkey : keyOf q = some key) :
    get (memoized can answers q).2 key = some (memoized can answers q).1 := by
  rw [memoized, hkey]
  dsimp only
  split
  · assumption
  · exact get_put_self ..

theorem answered_known (hcan : ∀ q, ∃ b, can q = .ok b) {key : Str} {out : Outcome}
    {events : List (Event Ctx)} {answers : List (Str × Outcome)} (h : Answers answers)
    (hknown : get answers key = some out) :
    ∀ p ∈ answered can events answers, keyOf p.1 = some key → p.2 = out := by
  induction events generalizing answers with
  | nil => nofun
  | cons event events ih =>
    cases event with
    | settle key' =>
      rw [answered, h.settled]
      exact ih h hknown
    | ask q =>
      obtain ⟨hknown', hanswer⟩ := memoized_known can hknown q
      rintro p hp
      rcases List.mem_cons.mp hp with rfl | hp
      · exact hanswer
      · exact ih (h.memoized hcan q) hknown' p hp

/-- Questions of one key are answered alike. -/
theorem answered_alike (hcan : ∀ q, ∃ b, can q = .ok b) {key : Str} {events : List (Event Ctx)}
    {answers : List (Str × Outcome)} (h : Answers answers) :
    ∀ p ∈ answered can events answers, ∀ p' ∈ answered can events answers,
      keyOf p.1 = some key → keyOf p'.1 = some key → p.2 = p'.2 := by
  induction events generalizing answers with
  | nil => nofun
  | cons event events ih =>
    cases event with
    | settle key' =>
      rw [answered, h.settled]
      exact ih h
    | ask q =>
      have hrest := h.memoized hcan q
      have hfirst : keyOf q = some key → ∀ p ∈ answered can events (memoized can answers q).2,
          keyOf p.1 = some key → p.2 = (memoized can answers q).1 :=
        fun hkey => answered_known hcan hrest (memoized_first hkey)
      rintro p hp p' hp' hkey hkey'
      rcases List.mem_cons.mp hp with rfl | hp <;> rcases List.mem_cons.mp hp' with rfl | hp'
      · rfl
      · exact (hfirst hkey p' hp' hkey').symm
      · exact hfirst hkey' p hp hkey
      · exact ih hrest p hp p' hp' hkey hkey'

end Run

/-! ## The memo over `can()` itself -/

/-- `access.can`, asked a question. -/
def ask (bound : BoundModel Ctx) (q : Question Ctx) : Outcome :=
  can bound (q.subject.elim .null .record) q.permission (.record q.object) q.ctx

/-- **`can()` is a function of the question**, where the objects asked about are determined by their
type and their id. -/
theorem can_isPure (bound : BoundModel Ctx) {qs : List (Question Ctx)}
    (hdata : ∀ q ∈ qs, ∀ q' ∈ qs, q.object.field (js "type") = q'.object.field (js "type") →
      q.object.field (js "id") = q'.object.field (js "id") → q.object = q'.object) :
    IsPure bound.model (ask bound) qs := by
  intro q hq q' hq' hs
  have hobject := hdata q hq q' hq' hs.type hs.id
  have hwho := hs.who
  rw [who, who] at hwho
  rw [ask, ask, hs.permission, hobject, hs.ctx]
  cases hq : q.subject with
  | none =>
    rw [hq] at hwho
    rw [Option.map_eq_none_iff.mp hwho.symm]
  | some s =>
    rw [hq, Option.map_some] at hwho
    obtain ⟨s', hs', hread⟩ := Option.map_eq_some_iff.mp hwho.symm
    rw [hs', Option.elim, Option.elim]
    unfold can
    rw [hread]
    rfl

/-- Staff, who are themselves objects with managers, and records that managers view. -/
def agency : ResolvedModel Unit where
  subjects := [js "staff"]
  types := [
    (js "staff", {
      name := js "staff"
      relations := [(js "managers", .stored [.type (js "staff")])]
      permissions := [] }),
    (js "record", {
      name := js "record"
      relations := [(js "viewers", .stored [.set (js "staff") (js "managers")])]
      permissions := [(js "view", [⟨.name (js "viewers"), none⟩])] })]
  subject_isName := staff_isName
  checked := ⟨by decide, by decide, by decide, by decide, by decide, by decide, by decide⟩

/-- Ada's managers view the record. -/
def managerTuples : List RelationTuple := [
  ⟨⟨js "record", js "r1"⟩, js "viewers", .set ⟨⟨js "staff", js "ada"⟩, js "managers"⟩⟩]

/-- What answers a question there. -/
def access : BoundModel Unit := ⟨agency, ofTuples managerTuples, 10⟩

/-- Ada, her `relation` read as it is: a column of her own, or the one `setOf()` wrote. -/
def ada (marked : Bool) : Record :=
  .of [(js "type", .str (js "staff")), (js "id", .str (js "ada")),
    (js "relation", .str (js "managers"))] marked

/-- Whether Ada, or the set of her managers, views the record. -/
def views (marked : Bool) : Question Unit where
  subject := some (ada marked)
  permission := js "view"
  object := row (js "record") (js "r1")
  ctx := none

theorem views_accepted (marked : Bool) : Accepted agency (views marked) where
  subject := by
    intro r hr
    obtain rfl : ada marked = r := Option.some.inj hr
    cases marked
    · exact ⟨.entity ⟨js "staff", js "ada"⟩, rfl⟩
    · exact ⟨.set ⟨⟨js "staff", js "ada"⟩, js "managers"⟩, rfl⟩
  object := ⟨_, _, objectOf_of rfl rfl rfl rfl, rfl, rfl⟩

theorem views_object {q : Question Unit} {marked marked' : Bool}
    (h : q ∈ [views marked, views marked']) : q.object = row (js "record") (js "r1") := by
  rcases List.mem_pair.mp h with rfl | rfl <;> rfl

/-! ## The memo against `can` -/

/-- **The memo is transparent exactly when no two questions asked are confused**: of the accepted
questions of a request, in any order and with any promise settling between. -/
theorem memoized_eq_can_iff {model : ResolvedModel Ctx} {events : List (Event Ctx)}
    (haccepted : ∀ q ∈ asked events, Accepted model q) :
    (∀ can, IsPure model can (asked events) → ∀ p ∈ answered can events [], p.2 = can p.1) ↔
      ∀ q ∈ asked events, ∀ q' ∈ asked events, ¬ Confused model q q' := by
  constructor
  · intro h q hq q' hq' hc
    -- the answer that tells a set from anything else
    let can : Question Ctx → Outcome := fun q => .ok (isSet model q)
    have hpure : IsPure model can (asked events) :=
      fun q _ q' _ hs => congrArg Except.ok (by rw [isSet, hs.who, ← isSet])
    have hcan : ∀ q, ∃ b, can q = .ok b := fun q => ⟨_, rfl⟩
    rw [← fst_answered can events []] at hq hq'
    obtain ⟨p, hp, rfl⟩ := List.mem_map.mp hq
    obtain ⟨p', hp', rfl⟩ := List.mem_map.mp hq'
    have ha := haccepted p.1 (fst_answered can events [] ▸ hq)
    have ha' := haccepted p'.1 (fst_answered can events [] ▸ hq')
    obtain ⟨key, hkey, hkey'⟩ := hc.keyOf ha ha'
    have hanswers : Answers [] := nofun
    have halike := answered_alike hcan hanswers p hp p' hp' hkey hkey'
    rw [h can hpure p hp, h can hpure p' hp'] at halike
    exact hc.isSet_ne ha ha' (Except.ok.inj halike)
  · intro h can hpure
    have hkept : Kept can (asked events) [] := nofun
    refine answered_eq_can ?_ (List.Subset.refl _) hkept
    intro q hq q' hq' key hkey hkey'
    rcases keyOf_eq (haccepted q hq) (haccepted q' hq') hkey hkey' with hs | hc
    · exact hpure q hq q' hq' hs
    · exact absurd hc (h q hq q' hq')

/-- Asked twice about the set of Ada's managers, it answers as `can()` does. -/
theorem memoized_eq_can_agency :
    (answered (ask access) [.ask (views true), .ask (views true)] []).map Prod.snd =
      [views true, views true].map (ask access) := by
  have heq : ∀ q ∈ [views true, views true], q = views true := by simp
  have haccepted : ∀ q ∈ asked [.ask (views true), .ask (views true)], Accepted agency q :=
    fun q hq => heq q hq ▸ views_accepted true
  rw [show [views true, views true] = asked [.ask (views true), .ask (views true)] from rfl,
    ← fst_answered (ask access) _ [], List.map_map]
  refine List.map_congr_left ((memoized_eq_can_iff haccepted).mpr ?_ _ ?_)
  · intro q hq q' hq' hc
    rw [heq q hq, heq q' hq'] at hc
    obtain ⟨s, s', _, _, hs, hs', _, _, _, _, _, _, hmark⟩ := hc.subjects
    exact hmark (congrArg Record.marked (Option.some.inj (hs.symm.trans hs')))
  · have hpure : IsPure access.model (ask access) [views true, views true] :=
      can_isPure access fun q hq q' hq' _ _ => (views_object hq).trans (views_object hq').symm
    exact hpure

/-- The set of her managers asked about first, Ada is answered as they are. -/
theorem memoized_ne_can :
    (∀ q ∈ [views true, views false], Accepted agency q) ∧
    IsPure agency (ask access) [views true, views false] ∧
    (answered (ask access) [.ask (views true), .ask (views false)] []).map Prod.snd =
      [.ok true, .ok true] ∧
    [views true, views false].map (ask access) = [.ok true, .ok false] := by
  refine ⟨?_, ?_, by decide, by decide⟩
  · simp only [List.forall_mem_cons, List.not_mem_nil, false_implies, implies_true, and_true]
    exact ⟨views_accepted true, views_accepted false⟩
  · exact can_isPure access fun q hq q' hq' _ _ => (views_object hq).trans (views_object hq').symm

end Janus.Graphql
