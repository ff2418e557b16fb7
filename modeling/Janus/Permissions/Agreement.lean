import Janus.Permissions.Decides
import Janus.Permissions.Equations
import Janus.Permissions.List

/-!
# Permissions/Agreement — `list()` agrees with `can()`

The equations `list()` solves and the rules `can()` follows derive the same things: what is found
under `type#name` holds `name` (`derives_holds`), and what holds it is owed there (`holds_owed`).
Two things must be as the core keeps them.  A lookup answers the ids of the objects whose field
names an id (`LookupsAnswer`), and a stored tuple's object has an id every store can keep: past a
`fromField`, `can()` takes no other for anybody.
-/

namespace Janus.Permissions

open Js Insertion Paging

variable {Ctx : Type}

/-- Every lookup that answers, answers exactly the valid and storable ids of the objects whose field
is the id asked for, each object's data being its row. -/
def LookupsAnswer (model : ResolvedModel Ctx) (rows : Str → Str → Record) : Prop :=
  ∀ type t relation field subject lookup, get model.types type = some t →
    get t.relations relation = some (.fromField field subject (some lookup)) →
    ∀ id answer, lookup id = .ok answer → ∃ values, answer = some values ∧
      ∀ v, v ∈ values ↔ ∃ i, v = .str i ∧ isId i = true ∧ isStorable i = true ∧
        (rows type i).field field = .str id

/-- The row of an object, when its id is one an object may have. -/
def rowFields (rows : Str → Str → Record) (e : Entity) : Option Record :=
  if isId e.id && isStorable e.id then some (rows e.type e.id) else none

/-- The situation `list()` and `can()` answer in. -/
def rowSituation (model : ResolvedModel Ctx) (tuples : List RelationTuple)
    (rows : Str → Str → Record) (ctx : Option Ctx) (who : Subject) : Situation Ctx :=
  ⟨model, tuples, rowFields rows, ctx, who⟩

theorem carries_row {model : ResolvedModel Ctx} {tuples : List RelationTuple}
    {rows : Str → Str → Record} {ctx : Option Ctx} {who : Subject} {e : Entity} {field id : Str} :
    Carries (rowSituation model tuples rows ctx who) e field id ↔
      isId e.id = true ∧ isStorable e.id = true ∧ (rows e.type e.id).field field = .str id ∧
        isStorable id = true := by
  simp only [Carries, rowSituation, rowFields]
  constructor
  · rintro ⟨data, hdata, hf, hs⟩
    split at hdata
    case isTrue h =>
      obtain rfl := Option.some.inj hdata
      simp only [Bool.and_eq_true] at h
      exact ⟨h.1, h.2, hf, hs⟩
    case isFalse => cases hdata
  · rintro ⟨hid, hst, hf, hs⟩
    exact ⟨_, if_pos (by rw [hid, hst]; rfl), hf, hs⟩

theorem mapM_asString {values : List Value} {ids : List Str}
    (h : values.mapM Value.asString = some ids) : values = ids.map .str := by
  induction values generalizing ids with
  | nil =>
    obtain rfl : [] = ids := by simpa using h
    rfl
  | cons v values ih =>
    rw [List.mapM_cons] at h
    obtain ⟨s, hs, h⟩ := Option.bind_eq_some_iff.mp h
    obtain ⟨rest, hrest, h⟩ := Option.bind_eq_some_iff.mp h
    obtain rfl : s :: rest = ids := Option.some.inj h
    rw [ih hrest, asString_eq.mp hs]
    rfl

theorem admits_set {holders : List Holder} {type relation id : Str}
    (h : .set type relation ∈ holders) : admits holders (.set ⟨⟨type, id⟩, relation⟩) = true :=
  List.any_eq_true.mpr ⟨_, h, by simp⟩

theorem admits_entity {holders : List Holder} {type id : Str} (h : .type type ∈ holders) :
    admits holders (.entity ⟨type, id⟩) = true :=
  List.any_eq_true.mpr ⟨_, h, by simp⟩

theorem mem_of_admits_set {holders : List Holder} {s : SubjectSet}
    (h : admits holders (.set s) = true) : .set s.type s.relation ∈ holders := by
  obtain ⟨holder, hm, h⟩ := List.any_eq_true.mp h
  cases holder with
  | type _ => cases h
  | set type relation =>
    obtain ⟨rfl, rfl⟩ := of_decide_eq_true h
    exact hm

theorem mem_of_admits_entity {holders : List Holder} {e : Entity}
    (h : admits holders (.entity e) = true) : .type e.type ∈ holders := by
  obtain ⟨holder, hm, h⟩ := List.any_eq_true.mp h
  cases holder with
  | set _ _ => cases h
  | type type =>
    obtain rfl := of_decide_eq_true h
    exact hm

namespace Reverse

variable {r : Reverse Ctx} {tuples : List RelationTuple} {rows : Str → Str → Record}

theorem mem_holding (hkeeps : Keeps r.store tuples) {type relation : Str} {subject : Subject}
    {ids : List Str} (h : r.holding type relation subject = .ok ids) (id : Str) :
    id ∈ ids ↔ ⟨⟨type, id⟩, relation, subject⟩ ∈ tuples := by
  have hlimit : 0 < MAX_PAGE_SIZE := by decide
  have hpage : ∀ after p, r.store.findObjects ⟨type, relation, subject, after, MAX_PAGE_SIZE⟩ =
    .ok p →
      IsPage (fun id => ⟨⟨type, id⟩, relation, subject⟩ ∈ tuples) after p :=
    fun after p hp => hkeeps.findObjects (by exact hlimit) hp
  simpa using (drain_ok hpage h).2 id

theorem mem_lookup (hlookups : LookupsAnswer r.model rows) {k relation id : Str}
    {type : ResolvedObjectType Ctx} {ids : List Str} {field subject : Str}
    {lk : Option (Str → Except Failure (Option (List Value)))}
    (ht : get r.model.types k = some type)
    (hr : get type.relations relation = some (.fromField field subject lk))
    (h : lookup type relation id = .ok ids) (i : Str) :
    i ∈ ids ↔ isId i = true ∧ isStorable i = true ∧ (rows k i).field field = .str id := by
  rw [lookup, hr] at h
  cases lk with
  | none => cases h
  | some lk =>
    obtain ⟨answer, hanswer, h⟩ := Except.bind_ok.mp h
    obtain ⟨values, rfl, hvalues⟩ := hlookups _ _ _ _ _ _ ht hr _ _ hanswer
    split at h
    case h_2 => cases h
    case h_1 all hall =>
      have hall := mapM_asString (by simpa using hall)
      have hi := hvalues (.str i)
      rw [hall] at hi
      rw [← Except.pure_ok.mp h, List.mem_filter]
      simp only [List.mem_map, Value.str.injEq, exists_eq_right] at hi
      rw [hi]
      simp only [↓existsAndEq, true_and]
      tauto

theorem tested_ok {q : Situation Ctx} (hctx : q.ctx = r.ctx) {rule : ResolvedRule Ctx}
    {type : ResolvedObjectType Ctx} {name : Str} (h : r.tested rule type name = .ok true) :
    Grants q rule := by
  intro test htest
  rw [tested, htest] at h
  dsimp only at h
  rw [passes] at h
  split at h
  case h_1 ctx hc => exact ⟨ctx, hctx.trans hc, h⟩
  case h_2 => cases h

theorem tested_of {q : Situation Ctx} (hctx : q.ctx = r.ctx) {rule : ResolvedRule Ctx}
    (type : ResolvedObjectType Ctx) (name : Str) (h : Grants q rule) :
    r.tested rule type name = .ok true := by
  rw [tested]
  split
  case h_1 test htest =>
    obtain ⟨ctx, hc, ht⟩ := h test htest
    rw [passes, ← hctx, hc]
    exact ht
  case h_2 => rfl

theorem Finds.holds (hkeeps : Keeps r.store tuples) (hlookups : LookupsAnswer r.model rows)
    (hids : ∀ t ∈ tuples, isStorable t.object.id = true) (hwho : isStorable r.subject.id = true)
    {k name id : Str} {type : ResolvedObjectType Ctx} {x : Except Failure (List Str)}
    {ids : List Str} (ht : get r.model.types k = some type) (h : r.Finds type name x)
    (hx : x = .ok ids) (hi : id ∈ ids) :
    Holds (rowSituation r.model tuples rows r.ctx r.subject) ⟨k, id⟩ name ∧
      isStorable id = true := by
  have hname : type.name = k := r.model.checked.name_eq _ (mem_of_get ht)
  cases h with
  | tuple hp hr =>
    rw [direct, hname] at hx
    split at hx
    case isTrue ha =>
      have hmem := (mem_holding hkeeps hx id).mp hi
      exact ⟨.tuple ⟨type, ht, hr⟩ ha hmem, hids _ hmem⟩
    case isFalse =>
      cases Except.pure_ok.mp hx
      cases hi
  | field hp hr hs =>
    obtain ⟨hid, hst, hf⟩ := (mem_lookup hlookups ht hr hx id).mp hi
    rw [hs] at hwho
    exact ⟨.field ⟨type, ht, hr⟩ (carries_row.mpr ⟨hid, hst, hf, hwho⟩) hs, hst⟩
  | refused hp hm he => cases hx

theorem Leads.holds (hkeeps : Keeps r.store tuples) (hlookups : LookupsAnswer r.model rows)
    (hids : ∀ t ∈ tuples, isStorable t.object.id = true)
    {k name id j : Str} {type : ResolvedObjectType Ctx} {k' : Str × Str}
    {image : Str → Except Failure (List Str)} {ids : List Str}
    (ht : get r.model.types k = some type) (h : r.Leads type name k' image)
    (hx : image j = .ok ids) (hi : id ∈ ids)
    (hj : Holds (rowSituation r.model tuples rows r.ctx r.subject) ⟨k'.1, j⟩ k'.2)
    (hst : isStorable j = true) :
    Holds (rowSituation r.model tuples rows r.ctx r.subject) ⟨k, id⟩ name ∧
      isStorable id = true := by
  have hname : type.name = k := r.model.checked.name_eq _ (mem_of_get ht)
  cases h with
  | set hp hr hh =>
    rw [hname] at hx
    have hmem := (mem_holding hkeeps hx id).mp hi
    have ha : admits _ (.set ⟨⟨_, j⟩, _⟩) = true := admits_set hh
    exact ⟨.set ⟨type, ht, hr⟩ ha hmem hj, hids _ hmem⟩
  | name hp hm htest href =>
    obtain rfl := Except.pure_ok.mp hx
    obtain rfl := List.mem_singleton.mp hi
    rw [hname] at hj
    exact ⟨.name ⟨type, ht, hp⟩ hm (tested_ok rfl htest) href hj, hst⟩
  | field hp hm htest href hr =>
    obtain ⟨hid, hst', hf⟩ := (mem_lookup hlookups ht hr hx id).mp hi
    exact ⟨.arrow ⟨type, ht, hp⟩ hm (tested_ok rfl htest) href
      (.field ⟨type, ht, hr⟩ (carries_row.mpr ⟨hid, hst', hf, hst⟩)) hj, hst'⟩
  | entity hp hm htest href hr hh hsome =>
    rw [hname] at hx
    have hmem := (mem_holding hkeeps hx id).mp hi
    exact ⟨.arrow ⟨type, ht, hp⟩ hm (tested_ok rfl htest) href
      (.tuple ⟨type, ht, hr⟩ (admits_entity hh) hmem) hj, hids _ hmem⟩

/-- **What `list()` finds is derived**, and has an id every store can keep. -/
theorem derives_holds (hkeeps : Keeps r.store tuples) (hlookups : LookupsAnswer r.model rows)
    (hids : ∀ t ∈ tuples, isStorable t.object.id = true) (hwho : isStorable r.subject.id = true)
    {a : (Str × Str) × Str} (h : Cut.Derives (Rounds.Base r.system) (Rounds.Edge r.system) a) :
    Holds (rowSituation r.model tuples rows r.ctx r.subject) ⟨a.1.1, a.2⟩ a.1.2 ∧
      isStorable a.2 = true := by
  induction h with
  | @base a hb =>
    obtain ⟨terms, ids, heq, hterm, hi⟩ := hb
    obtain ⟨type, ht, rfl⟩ := Option.map_eq_some_iff.mp heq
    exact (mem_terms_found.mp hterm).holds hkeeps hlookups hids hwho ht rfl hi
  | @step a b he _ ih =>
    obtain ⟨terms, image, ids, heq, hterm, hx, hi⟩ := he
    obtain ⟨type, ht, rfl⟩ := Option.map_eq_some_iff.mp heq
    exact (mem_terms_through.mp hterm).holds hkeeps hlookups hids ht hx hi ih.1 ih.2

section Owed

variable (r rows) (tuples) in
/-- The situation `list()` reads backwards. -/
abbrev asked : Situation Ctx := rowSituation r.model tuples rows r.ctx r.subject

/-- Where `list()` looks for a goal: under its type's name, its object's id. -/
def under (a : Goal) : (Str × Str) × Str := ((a.1.type, a.2), a.1.id)

theorem equation_of {e : Entity} {type : ResolvedObjectType Ctx}
    (ht : get r.model.types e.type = some type) (name : Str) :
    type.name = e.type ∧ r.system.equation (e.type, name) = some (r.terms type name) :=
  ⟨r.model.checked.name_eq _ (mem_of_get ht), by simp [system, ht]⟩

/-- **What holds at once is owed at once.** -/
theorem base_owed (hkeeps : Keeps r.store tuples) (hlookups : LookupsAnswer r.model rows) {a : Goal}
    (h : Base (asked r tuples rows) a) : Rounds.OwedBase r.system (under a) := by
  cases h with
  | @tuple e name holders hr ha hm =>
    obtain ⟨type, ht, hr⟩ := hr
    obtain ⟨hname, heq⟩ := equation_of (r := r) ht name
    refine ⟨_, _, heq, mem_terms_found.mpr (.tuple (not_both (asked r tuples rows) ht hr) hr),
      fun ids hids => ?_⟩
    have ha : admits holders r.subject = true := ha
    rw [direct, if_pos ha, hname] at hids
    exact (mem_holding hkeeps hids _).mpr hm
  | @field e name field subject id lk hr hc hs =>
    obtain ⟨type, ht, hr⟩ := hr
    obtain ⟨hname, heq⟩ := equation_of (r := r) ht name
    refine ⟨_, _, heq, mem_terms_found.mpr
      (.field (e := ⟨subject, id⟩) (not_both (asked r tuples rows) ht hr) hr hs),
      fun ids hids => ?_⟩
    obtain ⟨hid, hst, hf, _⟩ := carries_row.mp hc
    exact (mem_lookup hlookups ht hr hids _).mpr ⟨hid, hst, hf⟩

/-- **…and what another goal leads to is owed by it.** -/
theorem edge_owed (hkeeps : Keeps r.store tuples) (hlookups : LookupsAnswer r.model rows)
    {a b : Goal} (h : Edge (asked r tuples rows) a b) (hb : Declared (asked r tuples rows) b) :
    Rounds.OwedEdge r.system (under a) (under b) := by
  cases h with
  | @set e name holders s hr ha hm =>
    obtain ⟨type, ht, hr⟩ := hr
    obtain ⟨hname, heq⟩ := equation_of (r := r) ht name
    refine ⟨_, _, heq, mem_terms_through.mpr
      (.set (not_both (asked r tuples rows) ht hr) hr (mem_of_admits_set ha)), fun ids hids => ?_⟩
    rw [hname] at hids
    exact (mem_holding hkeeps hids _).mpr hm
  | @name e name other rules rule hr hm hg href =>
    obtain ⟨type, ht, hr⟩ := hr
    obtain ⟨hname, heq⟩ := equation_of (r := r) ht name
    have hlead := Leads.name (r := r) hr hm (tested_of rfl type name hg) href
    rw [hname] at hlead
    refine ⟨_, _, heq, mem_terms_through.mpr hlead, fun ids hids => ?_⟩
    rw [← Except.pure_ok.mp hids]
    exact List.mem_singleton_self _
  | @arrow e other name relation target rules rule hr hm hg href hrel =>
    obtain ⟨type, ht, hr⟩ := hr
    obtain ⟨hname, heq⟩ := equation_of (r := r) ht name
    have htest := tested_of (r := r) rfl type name hg
    cases hrel with
    | tuple hrel ha hin =>
      obtain ⟨type', ht', hrel⟩ := hrel
      obtain rfl : type = type' := Option.some.inj (ht.symm.trans ht')
      obtain ⟨otherType, hother, _⟩ := hb
      have hsome : (get r.model.types other.type).isSome := Option.isSome_iff_exists.mpr ⟨_, hother⟩
      refine ⟨_, _, heq, mem_terms_through.mpr
        (.entity hr hm htest href hrel (mem_of_admits_entity ha) hsome), fun ids hids => ?_⟩
      rw [hname] at hids
      exact (mem_holding hkeeps hids _).mpr hin
    | field hrel hc =>
      obtain ⟨type', ht', hrel⟩ := hrel
      obtain rfl : type = type' := Option.some.inj (ht.symm.trans ht')
      refine ⟨_, _, heq, mem_terms_through.mpr (.field hr hm htest href hrel), fun ids hids => ?_⟩
      obtain ⟨hid, hst, hf, _⟩ := carries_row.mp hc
      exact (mem_lookup hlookups ht hrel hids _).mpr ⟨hid, hst, hf⟩

/-- **What is derived is owed to `list()`**, by a derivation of the same height. -/
theorem derivesIn_owed (hkeeps : Keeps r.store tuples)
    (hlookups : LookupsAnswer r.model rows) {n : ℕ}
    {a : Goal} (h : Cut.DerivesIn (Base (asked r tuples rows)) (Edge (asked r tuples rows)) n a) :
    Cut.DerivesIn (Rounds.OwedBase r.system) (Rounds.OwedEdge r.system) n (under a) :=
  h.map under (fun _ => base_owed hkeeps hlookups) fun _ _ he hb =>
    edge_owed hkeeps hlookups he ((holds_iff_derives _).mpr hb).declared

theorem holds_owed (hkeeps : Keeps r.store tuples) (hlookups : LookupsAnswer r.model rows)
    {e : Entity} {name : Str}
    (h : Holds (rowSituation r.model tuples rows r.ctx r.subject) e name) :
    Rounds.Owed r.system (e.type, name) e.id := by
  obtain ⟨n, hn⟩ := ((holds_iff_derives _).mp h).exists_height
  exact (derivesIn_owed hkeeps hlookups hn).derives

end Owed

end Reverse

/-! ## Pages -/

/-- The reverse walk a question asks. -/
def reverseOf (bound : BoundModel Ctx) (pages : ℕ) (who : Subject) (type permission : Str)
    (ctx : Option Ctx) : Reverse Ctx :=
  ⟨bound.model, bound.store, bound.maxDepth, ctx, who, type ++ js "#" ++ permission, pages⟩

/-- An id on one of the pages: an id the reverse walk finds, for a subject a store can keep. -/
def Listed (bound : BoundModel Ctx) (pages : ℕ) (subject : Arg) (permission type : Str)
    (ctx : Option Ctx) (id : Str) : Prop :=
  ∃ who ids, subjectOf bound.model subject (js "list") = .ok who ∧ isStorable who.id = true ∧
    declares bound.model.types type permission = true ∧
    (reverseOf bound pages who type permission ctx).objects type permission = .ok ids ∧ id ∈ ids

variable {bound : BoundModel Ctx} {pages : ℕ} {subject : Arg} {permission type : Str}
  {ctx : Option Ctx} {limit : LimitArg}

theorem pageLimit_pos {where_ : Str} {n : ℕ} (h : pageLimit limit where_ = .ok n) : 0 < n := by
  unfold pageLimit at h
  split at h
  · rw [← Except.pure_ok.mp h]
    decide
  · split at h
    case isTrue h1 =>
      rw [← Except.pure_ok.mp h]
      exact Nat.lt_min.mpr ⟨by omega, by decide⟩
    case isFalse => cases h
  · cases h

/-- What a page of `list()` is a page of. -/
theorem list_ok {after : Option Str} {page : Page Str}
    (h : list bound pages subject permission (.str type) ctx (after.elim .null .str) limit
      = .ok page) :
    isAnonymous subject = true ∧ page = ⟨[], none⟩ ∨
      ∃ who, subjectOf bound.model subject (js "list") = .ok who ∧
        declares bound.model.types type permission = true ∧
        if isStorable who.id = true then
          ∃ ids n, 0 < n ∧
            (reverseOf bound pages who type permission ctx).objects type permission = .ok ids ∧
            page = pageOf ids after n
        else page = ⟨[], none⟩ := by
  obtain ⟨n, hn, h⟩ := Except.bind_ok.mp h
  obtain ⟨cursor, hcursor, h⟩ := Except.bind_ok.mp h
  obtain rfl : after = cursor := by cases after <;> exact Except.pure_ok.mp hcursor
  split at h
  case isTrue hanon => exact Or.inl ⟨hanon, (Except.pure_ok.mp h).symm⟩
  case isFalse =>
    obtain ⟨t, ht, h⟩ := Except.bind_ok.mp h
    have ht := typeOf_ok ht
    have hname : t.name = type := bound.model.checked.name_eq _ (mem_of_get ht)
    split at h
    case isTrue => cases h
    case isFalse hdecl =>
      obtain ⟨who, hwho, h⟩ := Except.bind_ok.mp h
      refine Or.inr ⟨who, hwho, Reverse.declares_iff.mpr ⟨t, ht, by simpa using hdecl⟩, ?_⟩
      split at h
      case isTrue hun =>
        rw [if_neg (by simpa using hun)]
        exact (Except.pure_ok.mp h).symm
      case isFalse hst =>
        rw [if_pos (by simpa using hst)]
        obtain ⟨ids, hids, h⟩ := Except.bind_ok.mp h
        rw [hname] at hids
        exact ⟨ids, n, pageLimit_pos hn, hids, (Except.pure_ok.mp h).symm⟩

/-- What a walk finds is all that is listed. -/
theorem listed_iff {who : Subject} {ids : List Str} {id : Str}
    (hwho : subjectOf bound.model subject (js "list") = .ok who) (hst : isStorable who.id = true)
    (hdecl : declares bound.model.types type permission = true)
    (hids : (reverseOf bound pages who type permission ctx).objects type permission = .ok ids) :
    Listed bound pages subject permission type ctx id ↔ id ∈ ids := by
  refine ⟨?_, fun hid => ⟨who, ids, hwho, hst, hdecl, hids, hid⟩⟩
  rintro ⟨who', ids', hwho', _, _, hids', hid⟩
  obtain rfl := Except.ok.inj (hwho.symm.trans hwho')
  obtain rfl := Except.ok.inj (hids.symm.trans hids')
  exact hid

theorem list_isPage {after : Option Str} {page : Page Str}
    (h : list bound pages subject permission (.str type) ctx (after.elim .null .str) limit
      = .ok page) :
    IsPage (Listed bound pages subject permission type ctx) after page := by
  have hempty : (∀ id, ¬ Listed bound pages subject permission type ctx id) →
      IsPage (Listed bound pages subject permission type ctx) after ⟨[], none⟩ :=
    fun hnot => ⟨.nil, fun id => by simp [hnot id], nofun⟩
  rcases list_ok h with ⟨hanon, rfl⟩ | ⟨who, hwho, hdecl, h⟩
  · refine hempty fun id ⟨who, _, hwho, _⟩ => ?_
    rw [not_anonymous hwho] at hanon
    cases hanon
  split at h
  case isFalse hun =>
    subst h
    refine hempty fun id ⟨who', _, hwho', hst, _⟩ => ?_
    rw [hwho] at hwho'
    cases hwho'
    exact hun hst
  case isTrue hst =>
    obtain ⟨ids, n, hn, hids, rfl⟩ := h
    have hpage := pageOf_isPage (Reverse.mem_objects (r := reverseOf bound pages who type
      permission ctx) hdecl hids).1 after hn
    exact ⟨hpage.ascending, fun id => by rw [hpage.mem, listed_iff hwho hst hdecl hids],
      hpage.cursor_mem⟩

/-- **A page of `list()` ends**, given a page more than there are tuples for each lookup. -/
theorem list_ne_outOfFuel {tuples : List RelationTuple}
    (hb : Terminating bound.model bound.store) (hkeeps : Keeps bound.store tuples)
    (hpages : tuples.length < pages) {after typeName : Value} :
    list bound pages subject permission typeName ctx after limit ≠ .error .outOfFuel := by
  intro h
  rcases Except.bind_error.mp h with h | ⟨n, hn, h⟩
  · unfold pageLimit at h
    split at h
    · cases h
    · split at h <;> cases h
    · cases h
  rcases Except.bind_error.mp h with h | ⟨cursor, hcursor, h⟩
  · unfold cursorOf at h
    split at h <;> cases h
  split at h
  · cases h
  split at h
  case h_2 => cases h
  rcases Except.bind_error.mp h with h | ⟨t, ht, h⟩
  · obtain ⟨_, ⟨⟩⟩ := typeOf_error h
  have ht := typeOf_ok ht
  have hname := bound.model.checked.name_eq _ (mem_of_get ht)
  split at h
  · cases h
  case isFalse hdecl =>
    rcases Except.bind_error.mp h with h | ⟨who, hwho, h⟩
    · obtain ⟨_, ⟨⟩⟩ := subjectOf_error h
    split at h
    · cases h
    rcases Except.bind_error.mp h with h | ⟨_, _, h⟩
    · refine Reverse.objects_ne_outOfFuel hb hkeeps hpages ?_ h
      rw [hname]
      exact Reverse.declares_iff.mpr ⟨t, ht, by simpa using hdecl⟩
    · cases h

/-- An id that is derived is the id of a stored object, or of a row. -/
theorem Holds.known {model : ResolvedModel Ctx} {tuples : List RelationTuple}
    {rows : Str → Str → Record} {who : Subject} {e : Entity} {name : Str}
    (h : Holds (rowSituation model tuples rows ctx who) e name) :
    isId e.id = true ∨ ∃ t ∈ tuples, t.object = e := by
  induction h with
  | tuple _ _ hm => exact Or.inr ⟨_, hm, rfl⟩
  | set _ _ hm _ => exact Or.inr ⟨_, hm, rfl⟩
  | field _ hc _ => exact Or.inl (carries_row.mp hc).1
  | name _ _ _ _ _ ih => exact ih
  | arrow _ _ _ _ hrel _ _ =>
    cases hrel with
    | tuple _ _ hm => exact Or.inr ⟨_, hm, rfl⟩
    | field _ hc => exact Or.inl (carries_row.mp hc).1

/-- A row is read as its object, and the subject as `list()` reads it. -/
theorem can_row {rows : Str → Str → Record} {id : Str} {who : Subject} {answer : Bool}
    (hrows : (rows type id).field (js "type") = .str type ∧
      (rows type id).field (js "id") = .str id)
    (hid : isId id = true) (hst : isStorable id = true)
    (hwho : subjectOf bound.model subject (js "list") = .ok who)
    (h : can bound subject permission (.record (rows type id)) ctx = .ok answer) :
    objectOf bound.model (.record (rows type id)) (js "can") = .ok ⟨type, id, rows type id⟩ ∧
      subjectOf bound.model subject (js "can") = .ok who ∧
      rowFields rows ⟨type, id⟩ = some (rows type id) := by
  obtain ⟨⟨type', id', data⟩, who', hroot, hwho', _⟩ := can_ok (not_anonymous hwho) h
  obtain rfl := subjectOf_unique (fun _ => Iff.rfl) hwho hwho'
  obtain ⟨hdata, htype, hrootId, _⟩ := objectOf_ok hroot
  cases hdata
  obtain rfl := Value.str.inj (hrows.1.symm.trans htype)
  obtain rfl := Value.str.inj (hrows.2.symm.trans hrootId)
  exact ⟨hroot, hwho', if_pos (by rw [hid, hst]; rfl)⟩

/-- Where the first page is answered, so is the page past any cursor. -/
theorem list_after {page : Page Str}
    (h : list bound pages subject permission (.str type) ctx .null limit = .ok page)
    (after : Option Str) :
    ∃ p, list bound pages subject permission (.str type) ctx (after.elim .null .str) limit =
      .ok p := by
  obtain ⟨n, hn, h⟩ := Except.bind_ok.mp h
  obtain ⟨_, -, h⟩ := Except.bind_ok.mp h
  have hcursor : cursorOf (after.elim .null .str) = .ok after := by cases after <;> rfl
  rw [list, hn, Except.ok_bind, hcursor, Except.ok_bind]
  split at h
  case isTrue hanon => exact ⟨_, if_pos hanon⟩
  case isFalse hanon =>
    obtain ⟨t, ht, h⟩ := Except.bind_ok.mp h
    rw [if_neg hanon]
    dsimp only
    rw [ht, Except.ok_bind]
    split at h
    case isTrue => cases h
    case isFalse hdecl =>
      obtain ⟨who, hwho, h⟩ := Except.bind_ok.mp h
      rw [if_neg hdecl, hwho, Except.ok_bind]
      split at h
      case isTrue hun => exact ⟨_, if_pos hun⟩
      case isFalse hst =>
        obtain ⟨ids, hids, -⟩ := Except.bind_ok.mp h
        rw [if_neg hst, hids]
        exact ⟨_, rfl⟩

/-- **The pages of a listing are put back together**: where the first is answered, in no more pages
than there are ids and one. -/
theorem listAll_settles {page : Page Str}
    (h : list bound pages subject permission (.str type) ctx .null limit = .ok page) :
    ∃ ids, (∀ fuel, (ids.length < fuel →
          listAll bound pages subject permission (.str type) ctx limit fuel = .ok ids) ∧
        ∀ found, listAll bound pages subject permission (.str type) ctx limit fuel = .ok found →
          found = ids) ∧
      ids.Pairwise (· < ·) ∧
      ∀ id, id ∈ ids ↔ Listed bound pages subject permission type ctx id := by
  choose next hnext using list_after h
  have hall : ∃ all : List Str, ∀ id, Listed bound pages subject permission type ctx id →
      id ∈ all := by
    by_cases hany : ∃ id, Listed bound pages subject permission type ctx id
    · obtain ⟨_, who, ids, hwho, hst, hdecl, hids, -⟩ := hany
      exact ⟨ids, fun id => (listed_iff hwho hst hdecl hids).mp⟩
    · exact ⟨[], fun id hid => absurd ⟨id, hid⟩ hany⟩
  obtain ⟨all, hall⟩ := hall
  have hpages : listAll bound pages subject permission (.str type) ctx limit =
      fun fuel => drain (fun after => .ok (next after)) .outOfFuel fuel none := by
    funext fuel
    rw [listAll, funext hnext]
  rw [hpages]
  exact drain_settles (fun after => list_isPage (hnext after)) hall Failure.outOfFuel

section Agrees

variable {tuples : List RelationTuple} {rows : Str → Str → Record} {id : Str}

/-- An id listed is derived for the subject. -/
theorem Listed.holds (h : Listed bound pages subject permission type ctx id)
    (hkeeps : Keeps bound.store tuples) (hstorable : ∀ t ∈ tuples, isStorable t.object.id = true)
    (hlookups : LookupsAnswer bound.model rows) :
    ∃ who, subjectOf bound.model subject (js "list") = .ok who ∧ isStorable who.id = true ∧
      Holds (rowSituation bound.model tuples rows ctx who) ⟨type, id⟩ permission ∧
        isStorable id = true := by
  obtain ⟨who, ids, hwho, hst, hdecl, hids, hid⟩ := h
  have hder := (Reverse.mem_objects (r := reverseOf bound pages who type permission ctx)
    hdecl hids).2.1 id hid
  exact ⟨who, hwho, hst, Reverse.derives_holds
    (r := reverseOf bound pages who type permission ctx) hkeeps hlookups hstorable hst hder⟩

/-- What `can()` answers of a row is what is derived, whoever the subject is read as. -/
theorem can_row_iff (hkeeps : Keeps bound.store tuples)
    (hrows : (rows type id).field (js "type") = .str type ∧
      (rows type id).field (js "id") = .str id)
    (hid : isId id = true) (hst : isStorable id = true) {answer : Bool}
    (hanswer : can bound subject permission (.record (rows type id)) ctx = .ok answer)
    {who : Subject} (hwho : subjectOf bound.model subject (js "list") = .ok who)
    (hwst : isStorable who.id = true) : answer = true ↔
      Holds (rowSituation bound.model tuples rows ctx who) ⟨type, id⟩ permission := by
  obtain ⟨hroot, hwho', hfields⟩ := can_row hrows hid hst hwho hanswer
  exact can_iff hkeeps hroot hwho' hst hwst hanswer hfields

/-- **What `can()` grants is listed**, where a page is answered. -/
theorem listed_of_can {page : Page Str} (hkeeps : Keeps bound.store tuples)
    (hlookups : LookupsAnswer bound.model rows)
    (hrows : (rows type id).field (js "type") = .str type ∧
      (rows type id).field (js "id") = .str id)
    (hid : isId id = true) (hst : isStorable id = true)
    (hpage : list bound pages subject permission (.str type) ctx .null limit = .ok page)
    (hcan : can bound subject permission (.record (rows type id)) ctx = .ok true) :
    Listed bound pages subject permission type ctx id := by
  have hfirst : list bound pages subject permission (.str type) ctx
    ((none : Option Str).elim .null .str) limit = .ok page := hpage
  rcases list_ok hfirst with ⟨hanon, _⟩ | ⟨who, hwho, hdecl, h⟩
  · rw [can, if_pos hanon] at hcan
    cases Except.pure_ok.mp hcan
  obtain ⟨root, who', _, hwho', hwalk⟩ := can_ok (not_anonymous hwho) hcan
  obtain rfl := subjectOf_unique (fun _ => Iff.rfl) hwho hwho'
  split at hwalk
  case isFalse => cases hwalk
  case isTrue hsts =>
    rw [if_pos hsts.2] at h
    obtain ⟨ids, n, _, hids, _⟩ := h
    have hholds := (can_row_iff hkeeps hrows hid hst hcan hwho hsts.2).mp rfl
    have howed := Reverse.holds_owed (r := reverseOf bound pages who' type permission ctx)
      hkeeps hlookups hholds
    exact ⟨who', ids, hwho, hsts.2, hdecl, hids,
      (Reverse.mem_objects (r := reverseOf bound pages who' type permission ctx) hdecl hids).2.2
        id howed⟩

/-- **`list()` agrees with `can()`.**  Where a page is answered they all are; put back together,
they are ascending and list nothing twice.  Of the ids an object may have they hold exactly those
`can()` answers `true` for; any other is the id of a stored tuple's object.  And `list()` ends. -/
theorem list_agrees {tuples : List RelationTuple} {rows : Str → Str → Record}
    (hkeeps : Keeps bound.store tuples)
    (hstorable : ∀ t ∈ tuples, isStorable t.object.id = true)
    (hlookups : LookupsAnswer bound.model rows)
    (hrows : ∀ id, (rows type id).field (js "type") = .str type ∧
      (rows type id).field (js "id") = .str id)
    (hcan : ∀ id, isId id = true → isStorable id = true →
      ∃ answer, can bound subject permission (.record (rows type id)) ctx = .ok answer) :
    (∀ page, list bound pages subject permission (.str type) ctx .null limit = .ok page →
      ∃ ids, (∀ fuel, (ids.length < fuel →
            listAll bound pages subject permission (.str type) ctx limit fuel = .ok ids) ∧
          ∀ found, listAll bound pages subject permission (.str type) ctx limit fuel = .ok found →
            found = ids) ∧
        ids.Pairwise (· < ·) ∧
        (∀ id, isId id = true → isStorable id = true →
          (id ∈ ids ↔ can bound subject permission (.record (rows type id)) ctx = .ok true)) ∧
        ∀ id ∈ ids, isStorable id = true ∧
          (isId id = true ∨ ∃ t ∈ tuples, t.object = ⟨type, id⟩)) ∧
    (Terminating bound.model bound.store → tuples.length < pages →
      list bound pages subject permission (.str type) ctx .null limit ≠ .error .outOfFuel) := by
  refine ⟨fun page hpage => ?_, fun hb hpages => list_ne_outOfFuel hb hkeeps hpages⟩
  obtain ⟨ids, hlist, hasc, hmem⟩ := listAll_settles hpage
  refine ⟨ids, hlist, hasc, fun id hid hst => ?_, fun id hid => ?_⟩
  · rw [hmem]
    constructor
    · intro hlisted
      obtain ⟨answer, hanswer⟩ := hcan id hid hst
      obtain ⟨who, hwho, hwst, hholds, -⟩ := hlisted.holds hkeeps hstorable hlookups
      rw [hanswer, (can_row_iff hkeeps (hrows id) hid hst hanswer hwho hwst).mpr hholds]
    · exact listed_of_can hkeeps hlookups (hrows id) hid hst hpage
  · obtain ⟨_, -, -, hholds, hst⟩ := ((hmem id).mp hid).holds hkeeps hstorable hlookups
    exact ⟨hst, hholds.known⟩

end Agrees

/-- Ada views one record of the clinic. -/
def viewerTuples (record : Str) : List RelationTuple :=
  [⟨⟨js "record", record⟩, js "viewers", .entity ⟨js "staff", js "ada"⟩⟩]

theorem clinic_lookups : LookupsAnswer clinic row := by
  intro name t relation field subject lookup ht hr
  have hnone : ∀ e ∈ clinic.types, ∀ r ∈ e.2.relations, r.2.arrowTypes ≠ [] → ∃ holders,
      r.2 = .stored holders := by
    simp [clinic]
  obtain ⟨_, h⟩ := hnone _ (mem_of_get ht) _ (mem_of_get hr) (by simp [ResolvedRelation.arrowTypes])
  cases h

theorem clinic_can (record : Str) (id : Str) (hid : isId id = true) (hst : isStorable id = true) :
    can ⟨clinic, ofTuples (viewerTuples record), 10⟩ (.record (row (js "staff") (js "ada")))
      (js "viewers") (.record (row (js "record") id)) none = .ok (decide (record = id)) := by
  have hroot : objectOf clinic (.record (row (js "record") id)) (js "can") =
      .ok ⟨js "record", id, row (js "record") id⟩ := objectOf_of rfl rfl hid rfl
  rw [can_eq rfl hroot rfl rfl rfl hst rfl]
  refine holds_direct (Nat.zero_le _) List.not_mem_nil rfl rfl rfl ?_ ?_
  · refine (if_pos (by decide)).trans ?_
    show (pure (decide (_ ∈ viewerTuples record)) : Except Failure Bool) = _
    simp [viewerTuples, pure, Except.pure, eq_comm]
  · simp [ofTuples, viewerTuples, pure, Except.pure]

/-- Ada views `r1` herself and by her team, and `r2` by a team that is a member of hers, and hers of
it; Bo views `r3`; and who views `r1` is stored as viewing `r4`, which the model does not admit. -/
def wardTuples : List RelationTuple := [
  ⟨⟨js "record", js "r1"⟩, js "viewers", .entity ⟨js "staff", js "ada"⟩⟩,
  ⟨⟨js "record", js "r1"⟩, js "viewers", .set ⟨⟨js "team", js "t1"⟩, js "members"⟩⟩,
  ⟨⟨js "record", js "r2"⟩, js "viewers", .set ⟨⟨js "team", js "t2"⟩, js "members"⟩⟩,
  ⟨⟨js "team", js "t2"⟩, js "members", .set ⟨⟨js "team", js "t1"⟩, js "members"⟩⟩,
  ⟨⟨js "team", js "t1"⟩, js "members", .set ⟨⟨js "team", js "t2"⟩, js "members"⟩⟩,
  ⟨⟨js "team", js "t1"⟩, js "members", .entity ⟨js "staff", js "ada"⟩⟩,
  ⟨⟨js "record", js "r3"⟩, js "viewers", .entity ⟨js "staff", js "bo"⟩⟩,
  ⟨⟨js "record", js "r4"⟩, js "viewers", .set ⟨⟨js "record", js "r1"⟩, js "viewers"⟩⟩]

theorem can_ward (id : Str) (hid : isId id = true) (hst : isStorable id = true) :
    can ⟨clinic, ofTuples wardTuples, 10⟩ (.record (row (js "staff") (js "ada"))) (js "view")
      (.record (row (js "record") id)) none = .ok (decide (id ∈ [js "r1", js "r2"])) := by
  by_cases hknown : id ∈ [js "r1", js "r2", js "r3", js "r4"]
  · revert id
    simp only [List.mem_cons, List.not_mem_nil, or_false]
    rintro _ - - (rfl | rfl | rfl | rfl) <;> decide
  · have hroot : objectOf clinic (.record (row (js "record") id)) (js "can") =
        .ok ⟨js "record", id, row (js "record") id⟩ := objectOf_of rfl rfl hid rfl
    simp only [List.mem_cons, List.not_mem_nil, or_false, not_or] at hknown
    obtain ⟨h1, h2, h3, h4⟩ := hknown
    have hteam : js "record" ≠ js "team" := by decide
    rw [can_eq rfl hroot rfl rfl rfl hst rfl]
    refine (holds_alias (Nat.zero_le _) List.not_mem_nil rfl rfl).trans ?_
    refine holds_direct (Nat.zero_le _) ?_ rfl rfl rfl ?_ ?_
    · simpa [nodeKey] using (by decide : js "viewers" ≠ js "view")
    · refine (if_pos (by decide)).trans ?_
      show (pure (decide (_ ∈ wardTuples)) : Except Failure Bool) = _
      simp [wardTuples, pure, Except.pure, hteam, h1, h2, h3]
    · simp [ofTuples, wardTuples, pure, Except.pure, hteam.symm, Ne.symm h1, Ne.symm h2, Ne.symm h3,
        Ne.symm h4]

/-- One record a page, the pages put together list `r1` and `r2`: what Ada views. -/
theorem list_agrees_ward :
    (∀ fuel, 2 < fuel → listAll ⟨clinic, ofTuples wardTuples, 10⟩ 9
      (.record (row (js "staff") (js "ada"))) (js "view") (.str (js "record")) none (.integer 1)
        fuel = .ok [js "r1", js "r2"]) ∧
    (∀ id, isId id = true → isStorable id = true →
      (id ∈ [js "r1", js "r2"] ↔ can ⟨clinic, ofTuples wardTuples, 10⟩
        (.record (row (js "staff") (js "ada"))) (js "view") (.record (row (js "record") id)) none
          = .ok true)) ∧
    ∀ id ∈ [js "r1", js "r2"], isStorable id = true ∧
      (isId id = true ∨ ∃ t ∈ wardTuples, t.object = ⟨js "record", id⟩) := by
  have hfirst : list ⟨clinic, ofTuples wardTuples, 10⟩ 9 (.record (row (js "staff") (js "ada")))
      (js "view") (.str (js "record")) none .null (.integer 1) =
        .ok ⟨[js "r1"], some (js "r1")⟩ := by decide
  have hall : listAll ⟨clinic, ofTuples wardTuples, 10⟩ 9 (.record (row (js "staff") (js "ada")))
      (js "view") (.str (js "record")) none (.integer 1) 3 = .ok [js "r1", js "r2"] := by decide
  obtain ⟨ids, hlist, -, hcan, hids⟩ := (list_agrees (ofTuples_keeps wardTuples) (by decide)
    clinic_lookups (fun _ => ⟨rfl, rfl⟩) fun id hid hst => ⟨_, can_ward id hid hst⟩).1 _ hfirst
  obtain rfl := (hlist 3).2 _ hall
  exact ⟨fun fuel => (hlist fuel).1, hcan, hids⟩

/-- An id no store can keep. -/
def nul : Str := [0]

/-- The rows of an archive: the record `r1` is owned by a team of an id no store can keep, and every
other by none. -/
def archiveRow (type id : Str) : Record :=
  .of [(js "type", .str type), (js "id", .str id),
    (js "ownerId", if id = js "r1" then .str nul else .null)] false

/-- Records owned by teams, which a field names. -/
def archive : ResolvedModel Unit where
  subjects := [js "staff"]
  types := [
    (js "team", {
      name := js "team"
      relations := [(js "viewers", .stored [.type (js "staff")])]
      permissions := [] }),
    (js "record", {
      name := js "record"
      relations := [(js "owner", .fromField (js "ownerId") (js "team") <| some fun id =>
        pure (some (if id = nul then [.str (js "r1")] else [])))]
      permissions := [(js "view", [⟨.arrow (js "owner") (js "viewers"), none⟩])] })]
  subject_isName := staff_isName
  checked := ⟨by decide, by decide, by decide, by decide, by decide, by decide, by decide⟩

/-- Ada views that team's records. -/
def nulTuples : List RelationTuple :=
  [⟨⟨js "team", nul⟩, js "viewers", .entity ⟨js "staff", js "ada"⟩⟩]

theorem archiveRow_ownerId (type id : Str) :
    (archiveRow type id).field (js "ownerId") = if id = js "r1" then .str nul else .null := by
  rfl

theorem archive_lookups : LookupsAnswer archive archiveRow := by
  intro name t relation field subject lookup ht hr id answer h
  have ht := mem_of_get ht
  have hr := mem_of_get hr
  simp only [archive, List.mem_cons, Prod.mk.injEq, List.not_mem_nil, or_false] at ht
  rcases ht with ⟨rfl, rfl⟩ | ⟨rfl, rfl⟩
  · simp at hr
  simp only [List.mem_singleton, Prod.mk.injEq, ResolvedRelation.fromField.injEq,
    Option.some.injEq] at hr
  obtain ⟨rfl, rfl, rfl, rfl⟩ := hr
  obtain rfl := Except.pure_ok.mp h
  refine ⟨_, rfl, fun v => ?_⟩
  simp only [archiveRow_ownerId]
  by_cases hid : id = nul
  · subst hid
    simp only [if_true, List.mem_singleton]
    constructor
    · rintro rfl
      exact ⟨_, rfl, by decide, by decide, if_pos rfl⟩
    · rintro ⟨i, rfl, _, _, hi⟩
      split at hi
      · subst_vars
        rfl
      · cases hi
  · simp only [if_neg hid, List.not_mem_nil, false_iff]
    rintro ⟨i, rfl, _, _, hi⟩
    split at hi
    · exact hid (Value.str.inj hi).symm
    · cases hi

theorem archive_can (id : Str) (hid : isId id = true) (hst : isStorable id = true) :
    can ⟨archive, ofTuples nulTuples, 10⟩ (.record (row (js "staff") (js "ada")))
      (js "view") (.record (archiveRow (js "record") id)) none = .ok false := by
  have hroot : objectOf archive (.record (archiveRow (js "record") id)) (js "can") =
      .ok ⟨js "record", id, archiveRow (js "record") id⟩ := objectOf_of rfl rfl hid rfl
  rw [can_eq rfl hroot rfl rfl rfl hst rfl]
  by_cases h : id = js "r1"
  · subst h
    rfl
  · rw [archiveRow, if_neg h]
    rfl

/-- **A listed id is not always one `can()` answers `true` for.**  A stored tuple's object may have
an id `can()` refuses, and `list()` yields it; and past a `fromField`, `list()` follows an id no
store can keep, where `can()` takes nobody. -/
theorem list_not_can :
    (listAll ⟨clinic, ofTuples (viewerTuples (js "a@b")), 10⟩ 2 (.record (row (js "staff") (js "ada")))
        (js "viewers") (.str (js "record")) none (.integer 1) 2 = .ok [js "a@b"] ∧
      (∀ id, isId id = true → isStorable id = true →
        can ⟨clinic, ofTuples (viewerTuples (js "a@b")), 10⟩ (.record (row (js "staff") (js "ada")))
          (js "viewers") (.record (row (js "record") id)) none = .ok false) ∧
      can ⟨clinic, ofTuples (viewerTuples (js "a@b")), 10⟩ (.record (row (js "staff") (js "ada")))
          (js "viewers") (.record (row (js "record") (js "a@b"))) none =
        .error (.typeError
          (js "can: the object id must be a non-empty string without @, # or parentheses"))) ∧
    (LookupsAnswer archive archiveRow ∧
      listAll ⟨archive, ofTuples nulTuples, 10⟩ 2 (.record (row (js "staff") (js "ada")))
        (js "view") (.str (js "record")) none (.integer 1) 2 = .ok [js "r1"] ∧
      ∀ id, isId id = true → isStorable id = true →
        can ⟨archive, ofTuples nulTuples, 10⟩ (.record (row (js "staff") (js "ada")))
          (js "view") (.record (archiveRow (js "record") id)) none = .ok false) := by
  refine ⟨⟨by decide, fun id hid hst => ?_, by decide⟩, archive_lookups, by decide, archive_can⟩
  rw [clinic_can _ id hid hst, decide_eq_false]
  rintro rfl
  exact absurd hid (by decide)

end Janus.Permissions
