import Janus.Machinery.Outcome
import Janus.Machinery.Cut
import Janus.Machinery.Insertion
import Mathlib.Data.List.Perm.Subperm

/-!
# Machinery/Rounds — a least fixpoint by rounds, each cutting its own loops

A `System` gives each name an equation: a union of sets found outright and of images of what other
names hold.  A round evaluates a name top-down, remembering every name it finished, and a name met
again on the path being evaluated answers what the previous round found.  Rounds repeat until one
meets no loop, or finds as many elements under every name as the one before.

The answer is the least fixpoint (`mem_rounds_iff`), for three reasons:

* every round stays inside it (`reach_sound`);
* a round over more finds more (`reach_mono`), so two rounds of equal sizes found the same sets;
* a finished name is closed under its equation, read at the sets it was evaluated with
  (`reach_settled`) — and in the last round those are the sets found.
-/

set_option linter.unusedSectionVars false

open Insertion

namespace Rounds

variable {K I κ ε : Type} [DecidableEq κ] [DecidableEq I]

/-! ## Equations and their evaluation -/

/-- One part of an equation: elements found outright, or the image of another name. -/
inductive Term (K I ε : Type) where
  | found (ids : Except ε (List I))
  | through (k : K) (image : I → Except ε (List I))

/-- The equations, and the key each name is remembered under.  A name with no equation holds
nothing, and is not remembered. -/
structure System (K I κ ε : Type) where
  key : K → κ
  equation : K → Option (List (Term K I ε))

/-- What one round has found so far, and whether it met a loop. -/
structure Round (κ I : Type) where
  current : List (κ × List I)
  looped : Bool

/-- The images of every element reached, added to what was found. -/
def images (image : I → Except ε (List I)) (reached found : List I) : Except ε (List I) :=
  reached.foldlM (fun found i => do pure (addAll found (← image i))) found

/-- One part of an equation, evaluated and added to what was found. -/
def evalTerm (reach : K → Round κ I → Except ε (List I × Round κ I)) :
    List I × Round κ I → Term K I ε → Except ε (List I × Round κ I)
  | (found, round), .found ids => do pure (addAll found (← ids), round)
  | (found, round), .through k image => do
    let (reached, round) ← reach k round
    pure (← images image reached found, round)

/-- What `k` holds in this round: remembered, cut, or evaluated and remembered. -/
def reach (S : System K I κ ε) (previous : List (κ × List I)) (stuck : ε) :
    ℕ → List κ → K → Round κ I → Except ε (List I × Round κ I)
  | 0, _, _, _ => throw stuck
  | fuel + 1, path, k, round =>
    match get round.current (S.key k) with
    | some done => pure (done, round)
    | none =>
      if S.key k ∈ path then
        pure ((get previous (S.key k)).getD [], { round with looped := true })
      else
        match S.equation k with
        | none => pure ([], round)
        | some terms => do
          let (found, round) ←
            terms.foldlM (evalTerm (reach S previous stuck fuel (S.key k :: path))) ([], round)
          pure (found, { round with current := put round.current (S.key k) found })

/-- Whether every name finished holds as many elements as it did in the round before. -/
def same (previous current : List (κ × List I)) : Bool :=
  current.all fun e => ((get previous e.1).map List.length).getD 0 = e.2.length

/-- At most `n` rounds, and what the last one found — `none` when they ran out. -/
def rounds (S : System K I κ ε) (stuck : ε) (fuel : ℕ) (k : K) :
    ℕ → List (κ × List I) → Except ε (Option (List I))
  | 0, _ => pure none
  | n + 1, previous => do
    let (found, round) ← reach S previous stuck fuel [] k ⟨[], false⟩
    if !round.looped || same previous round.current then pure (some found)
    else rounds S stuck fuel k n round.current

/-! ## What the equations derive -/

variable (S : System K I κ ε)

/-- Found outright under its own name. -/
def Base (a : K × I) : Prop :=
  ∃ terms ids, S.equation a.1 = some terms ∧ .found (.ok ids) ∈ terms ∧ a.2 ∈ ids

/-- In the image of another name's element. -/
def Edge (a b : K × I) : Prop :=
  ∃ terms image ids, S.equation a.1 = some terms ∧ .through b.1 image ∈ terms ∧
    image b.2 = .ok ids ∧ a.2 ∈ ids

/-- The least fixpoint: `i` is under `k` by a finite derivation. -/
abbrev Derives (k : K) (i : I) : Prop := Cut.Derives (Base S) (Edge S) (k, i)

/-- Found outright under its own name, unless that failed. -/
def OwedBase (a : K × I) : Prop :=
  ∃ terms ids, S.equation a.1 = some terms ∧ .found ids ∈ terms ∧ ∀ as, ids = .ok as → a.2 ∈ as

/-- In the image of another name's element, unless that failed. -/
def OwedEdge (a b : K × I) : Prop :=
  ∃ terms image, S.equation a.1 = some terms ∧ .through b.1 image ∈ terms ∧
    ∀ as, image b.2 = .ok as → a.2 ∈ as

/-- `i` is under `k` by a finite derivation, as far as its steps answer. -/
abbrev Owed (k : K) (i : I) : Prop := Cut.Derives (OwedBase S) (OwedEdge S) (k, i)

theorem Derives.owed {k : K} {i : I} (h : Derives S k i) : Owed S k i :=
  Cut.Derives.mono
    (fun _ ⟨terms, ids, heq, ht, hi⟩ => ⟨terms, _, heq, ht, fun _ h => by cases h; exact hi⟩)
    (fun _ _ ⟨terms, image, ids, heq, ht, hids, hi⟩ => ⟨terms, image, heq, ht, fun _ h => by
      rw [hids] at h; cases h; exact hi⟩) h

/-- The names a system is asked for: no two share a key, and equations lead only to them. -/
structure Named (Good : K → Prop) : Prop where
  inj : ∀ {k k'}, Good k → Good k' → S.key k = S.key k' → k = k'
  closed : ∀ {k terms k' image},
    Good k → S.equation k = some terms → .through k' image ∈ terms → Good k'

variable {S} {Good : K → Prop} {previous : List (κ × List I)} {stuck : ε}

/-! ## Images -/

theorem mem_images {image : I → Except ε (List I)} {reached found result : List I}
    (h : images image reached found = .ok result) (i : I) :
    i ∈ result ↔ i ∈ found ∨ ∃ j ∈ reached, ∃ ids, image j = .ok ids ∧ i ∈ ids := by
  refine List.foldlM_ok
    (fun done b => i ∈ b ↔ i ∈ found ∨ ∃ j ∈ done, ∃ ids, image j = .ok ids ∧ i ∈ ids)
    (by simp) (fun done a x y _ hx hy => ?_) h
  obtain ⟨ids, hids, hy⟩ := Except.bind_ok.mp hy
  obtain rfl := Except.pure_ok.mp hy
  rw [mem_addAll, hx, or_assoc]
  refine or_congr_right ⟨?_, ?_⟩
  · rintro (⟨j, hj, hi⟩ | hi)
    · exact ⟨j, List.mem_append_left _ hj, hi⟩
    · exact ⟨a, by simp, ids, hids, hi⟩
  · rintro ⟨j, hj, ids', hids', hi⟩
    rcases List.mem_append.mp hj with hj | hj
    · exact Or.inl ⟨j, hj, ids', hids', hi⟩
    · obtain rfl : j = a := by simpa using hj
      exact Or.inr (by rw [hids] at hids'; cases hids'; exact hi)

theorem nodup_images {image : I → Except ε (List I)} {reached found result : List I}
    (h : images image reached found = .ok result) (hf : found.Nodup) : result.Nodup :=
  List.foldlM_ok (fun _ b => b.Nodup) hf
    (fun _ _ x y _ hx hy => by
      obtain ⟨ids, _, hy⟩ := Except.bind_ok.mp hy
      exact Except.pure_ok.mp hy ▸ nodup_addAll hx) h

/-- Every element reached had an image. -/
theorem image_ok {image : I → Except ε (List I)} {reached found result : List I}
    (h : images image reached found = .ok result) {j : I} (hj : j ∈ reached) :
    ∃ ids, image j = .ok ids := by
  have := List.foldlM_ok
    (fun done (_ : List I) => ∀ j ∈ done, ∃ ids, image j = .ok ids) (by simp)
    (fun done a x y _ hx hy k hk => by
      obtain ⟨ids, hids, _⟩ := Except.bind_ok.mp hy
      rcases List.mem_append.mp hk with hk | hk
      · exact hx k hk
      · exact ⟨ids, by simpa using (List.mem_singleton.mp hk) ▸ hids⟩) h
  exact this j hj

/-- Images gathered apart and then added are images added as they come. -/
theorem images_addAll (image : I → Except ε (List I)) (s : List I) :
    ∀ reached t : List I, images image reached (addAll s t) =
      do pure (addAll s (← images image reached t))
  | [], _ => rfl
  | i :: reached, t => by
    simp only [images, List.foldlM_cons, bind_assoc]
    refine bind_congr fun ids => ?_
    simp only [pure_bind, ← addAll_addAll]
    exact images_addAll image s reached (addAll t ids)

/-- Parts evaluated apart and then added are parts added as they come. -/
theorem foldlM_evalTerm_addAll (inner : K → Round κ I → Except ε (List I × Round κ I))
    (s : List I) : ∀ (terms : List (Term K I ε)) (t : List I) (round : Round κ I),
      terms.foldlM (evalTerm inner) (addAll s t, round) =
        do let (found, round) ← terms.foldlM (evalTerm inner) (t, round)
           pure (addAll s found, round)
  | [], _, _ => rfl
  | .found ids :: terms, t, round => by
    simp only [List.foldlM_cons, evalTerm, bind_assoc, pure_bind, ← addAll_addAll]
    exact bind_congr fun ids => foldlM_evalTerm_addAll inner s terms _ _
  | .through k image :: terms, t, round => by
    simp only [List.foldlM_cons, evalTerm, bind_assoc, pure_bind, images_addAll]
    exact bind_congr fun _ => bind_congr fun _ => foldlM_evalTerm_addAll inner s terms _ _

/-- The image of every element on itself is the set. -/
theorem images_pure (reached found : List I) :
    images (fun i => (pure [i] : Except ε (List I))) reached found =
    pure (addAll found reached) := by
  induction reached generalizing found with
  | nil => rfl
  | cons i reached ih =>
    simp only [images, List.foldlM_cons, pure_bind] at ih ⊢
    exact ih _

/-! ## One name's answer -/

/-- How a name's answer came about, when the names inside it answer by `inner`. -/
inductive Answered (S : System K I κ ε) (previous : List (κ × List I))
    (inner : K → Round κ I → Except ε (List I × Round κ I)) (path : List κ) (k : K)
    (round : Round κ I) : List I → Round κ I → Prop
  | remembered {ids} : get round.current (S.key k) = some ids →
      Answered S previous inner path k round ids round
  | cut : get round.current (S.key k) = none → S.key k ∈ path →
      Answered S previous inner path k round ((get previous (S.key k)).getD [])
        { round with looped := true }
  | unknown : get round.current (S.key k) = none → S.key k ∉ path → S.equation k = none →
      Answered S previous inner path k round [] round
  | evaluated {terms ids r} : get round.current (S.key k) = none → S.key k ∉ path →
      S.equation k = some terms → terms.foldlM (evalTerm inner) ([], round) = .ok (ids, r) →
      Answered S previous inner path k round ids
        { r with current := put r.current (S.key k) ids }

theorem reach_answered {fuel : ℕ} {path : List κ} {k : K} {round round' : Round κ I}
    {ids : List I} (h : reach S previous stuck (fuel + 1) path k round = .ok (ids, round')) :
    Answered S previous (reach S previous stuck fuel (S.key k :: path)) path k round
      ids round' := by
  rw [reach] at h
  split at h
  · cases Except.pure_ok.mp h
    exact .remembered ‹_›
  split at h
  · cases Except.pure_ok.mp h
    exact .cut ‹_› ‹_›
  split at h
  · cases Except.pure_ok.mp h
    exact .unknown ‹_› ‹_› ‹_›
  obtain ⟨⟨found, r⟩, hloop, h⟩ := Except.bind_ok.mp h
  cases Except.pure_ok.mp h
  exact .evaluated ‹_› ‹_› ‹_› hloop

/-- One part's answer: what was found outright, or the images of what another name answered. -/
theorem evalTerm_ok {inner : K → Round κ I → Except ε (List I × Round κ I)} {term : Term K I ε}
    {found found' : List I} {round round' : Round κ I}
    (h : evalTerm inner (found, round) term = .ok (found', round')) :
    (∃ ids, term = .found (.ok ids) ∧ found' = addAll found ids ∧ round' = round) ∨
      ∃ k image reached, term = .through k image ∧ inner k round = .ok (reached, round') ∧
        images image reached found = .ok found' := by
  cases term with
  | found ids =>
    obtain ⟨ids, rfl, h⟩ := Except.bind_ok.mp h
    cases Except.pure_ok.mp h
    exact Or.inl ⟨ids, rfl, rfl, rfl⟩
  | through k image =>
    obtain ⟨⟨reached, r⟩, hr, h⟩ := Except.bind_ok.mp h
    obtain ⟨out, hout, h⟩ := Except.bind_ok.mp h
    cases Except.pure_ok.mp h
    exact Or.inr ⟨k, image, reached, rfl, hr, hout⟩

/-! ## A round only grows -/

/-- Later in a round: what was finished stays, and a loop once met stays met. -/
structure Grows (path : List κ) (round round' : Round κ I) : Prop where
  keep : ∀ {c ids}, get round.current c = some ids → get round'.current c = some ids
  /-- A name on the path is still being evaluated. -/
  unfinished : ∀ c ∈ path, get round.current c = none → get round'.current c = none
  looped : round.looped = true → round'.looped = true

theorem Grows.refl (path : List κ) (round : Round κ I) : Grows path round round :=
  ⟨id, fun _ _ h => h, id⟩

theorem Grows.trans {path : List κ} {a b c : Round κ I} (h : Grows path a b)
    (h' : Grows path b c) : Grows path a c :=
  ⟨fun x => h'.keep (h.keep x), fun x hx hn => h'.unfinished x hx (h.unfinished x hx hn),
    fun x => h'.looped (h.looped x)⟩

theorem reach_grows {fuel : ℕ} {path : List κ} {k : K} {round round' : Round κ I}
    {ids : List I} (h : reach S previous stuck fuel path k round = .ok (ids, round')) :
    Grows path round round' := by
  induction fuel generalizing path k round ids round' with
  | zero => exact absurd h (by simp [reach])
  | succ fuel ih =>
    cases reach_answered h with
    | remembered _ => exact .refl ..
    | cut _ _ => exact ⟨id, fun _ _ h => h, fun _ => rfl⟩
    | unknown _ _ _ => exact .refl ..
    | @evaluated terms _ r hnone hpath _ hloop =>
      have hr : Grows (S.key k :: path) round r :=
        List.foldlM_ok (fun _ x => Grows (S.key k :: path) round x.2) (.refl ..)
          (fun _ t x y _ hx hy => by
            rcases evalTerm_ok hy with ⟨_, _, _, hr⟩ | ⟨_, _, _, _, hin, _⟩
            · exact hr ▸ hx
            · exact hx.trans (ih hin)) hloop
      refine ⟨fun {c v} hc => ?_, fun c hc hn => ?_, hr.looped⟩
      · rw [get_put_ne _ _ fun e => by rw [e, hc] at hnone; cases hnone]
        exact hr.keep hc
      · rw [get_put_ne _ _ (by rintro rfl; exact hpath hc)]
        exact hr.unfinished c (List.mem_cons_of_mem _ hc) hn

/-! ## Soundness: a round stays inside the least fixpoint -/

/-- Every set filed under the key of a good name is derived there, and lists nothing twice. -/
def Sound (S : System K I κ ε) (Good : K → Prop) (m : List (κ × List I)) : Prop :=
  ∀ k, Good k → ∀ ids, get m (S.key k) = some ids → ids.Nodup ∧ ∀ i ∈ ids, Derives S k i

theorem Sound.getD {m : List (κ × List I)} (h : Sound S Good m) {k : K} (hk : Good k) :
    ((get m (S.key k)).getD []).Nodup ∧ ∀ i ∈ (get m (S.key k)).getD [], Derives S k i := by
  cases hget : get m (S.key k) with
  | none => exact ⟨List.nodup_nil, fun _ hi => absurd hi List.not_mem_nil⟩
  | some ids => exact h k hk ids hget

theorem Sound.put (named : Named S Good) {m : List (κ × List I)} (h : Sound S Good m) {k : K}
    (hk : Good k) {ids : List I} (hids : ids.Nodup ∧ ∀ i ∈ ids, Derives S k i) :
    Sound S Good (put m (S.key k) ids) := by
  intro k' hk' ids' hget
  rw [get_put] at hget
  split at hget
  · obtain rfl := named.inj hk hk' ‹_›
    cases hget
    exact hids
  · exact h k' hk' ids' hget

theorem reach_sound (named : Named S Good) (hp : Sound S Good previous) {fuel : ℕ}
    {path : List κ} {k : K} {round round' : Round κ I} {ids : List I} (hk : Good k)
    (hr : Sound S Good round.current)
    (h : reach S previous stuck fuel path k round = .ok (ids, round')) :
    (ids.Nodup ∧ ∀ i ∈ ids, Derives S k i) ∧ Sound S Good round'.current := by
  induction fuel generalizing path k round ids round' with
  | zero => exact absurd h (by simp [reach])
  | succ fuel ih =>
    cases reach_answered h with
    | remembered hget => exact ⟨hr k hk _ hget, hr⟩
    | cut _ _ => exact ⟨hp.getD hk, hr⟩
    | unknown _ _ _ => exact ⟨⟨List.nodup_nil, fun _ hi => absurd hi List.not_mem_nil⟩, hr⟩
    | @evaluated terms _ r _ _ heq hloop =>
      have := List.foldlM_ok
        (fun _ x => (x.1.Nodup ∧ ∀ i ∈ x.1, Derives S k i) ∧ Sound S Good x.2.current)
        ⟨⟨List.nodup_nil, fun _ hi => absurd hi List.not_mem_nil⟩, hr⟩ ?_ hloop
      · exact ⟨this.1, this.2.put named hk this.1⟩
      rintro _ t ⟨found, x⟩ ⟨found', y⟩ ht ⟨⟨hnd, hall⟩, hx⟩ hy
      rcases evalTerm_ok hy with ⟨as, rfl, rfl, rfl⟩ | ⟨k', image, reached, rfl, hin, him⟩
      · refine ⟨⟨nodup_addAll hnd, fun i hi => ?_⟩, hx⟩
        rcases mem_addAll.mp hi with hi | hi
        · exact hall i hi
        · exact .base ⟨terms, as, heq, ht, hi⟩
      · obtain ⟨⟨_, hder⟩, hy'⟩ := ih (named.closed hk heq ht) hx hin
        refine ⟨⟨nodup_images him hnd, fun i hi => ?_⟩, hy'⟩
        rcases (mem_images him i).mp hi with hi | ⟨j, hj, ids', hids', hi⟩
        · exact hall i hi
        · exact .step (b := (k', j)) ⟨terms, image, ids', heq, ht, hids', hi⟩ (hder j hj)

/-! ## Monotonicity: a round over more finds more -/

/-- The same names finished, and at least as much under each. -/
def Below (m m' : List (κ × List I)) : Prop :=
  ∀ c, ((get m c).isSome ↔ (get m' c).isSome) ∧
    (get m c).getD [] ⊆ (get m' c).getD []

theorem Below.put {m m' : List (κ × List I)} (h : Below m m') (c : κ) {ids ids' : List I}
    (hids : ids ⊆ ids') : Below (put m c ids) (put m' c ids') := by
  intro c'
  rw [get_put, get_put]
  split
  · exact ⟨by simp, by simpa using hids⟩
  · exact h c'

theorem reach_mono {previous' : List (κ × List I)}
    (hp : ∀ c, (get previous c).getD [] ⊆ (get previous' c).getD []) {fuel : ℕ} {path : List κ}
    {k : K} {a a' b b' : Round κ I} {ids ids' : List I} (hab : Below a.current b.current)
    (h : reach S previous stuck fuel path k a = .ok (ids, a'))
    (h' : reach S previous' stuck fuel path k b = .ok (ids', b')) :
    ids ⊆ ids' ∧ Below a'.current b'.current := by
  induction fuel generalizing path k a a' b b' ids ids' with
  | zero => exact absurd h (by simp [reach])
  | succ fuel ih =>
    obtain ⟨hsome, hsub⟩ := hab (S.key k)
    rw [reach] at h h'
    cases hget : get a.current (S.key k) with
    | some done =>
      rw [hget] at h hsome hsub
      obtain ⟨done', hget'⟩ := Option.isSome_iff_exists.mp (hsome.mp rfl)
      rw [hget'] at h' hsub
      cases Except.pure_ok.mp h
      cases Except.pure_ok.mp h'
      exact ⟨hsub, hab⟩
    | none =>
      rw [hget] at h hsome
      have hget' : get b.current (S.key k) = none := by
        rw [← Option.not_isSome_iff_eq_none, ← hsome]
        simp
      rw [hget'] at h'
      by_cases hpath : S.key k ∈ path
      · simp only [if_pos hpath] at h h'
        cases Except.pure_ok.mp h
        cases Except.pure_ok.mp h'
        exact ⟨hp _, hab⟩
      simp only [if_neg hpath] at h h'
      cases heq : S.equation k with
      | none =>
        simp only [heq] at h h'
        cases Except.pure_ok.mp h
        cases Except.pure_ok.mp h'
        exact ⟨List.Subset.refl _, hab⟩
      | some terms =>
        simp only [heq] at h h'
        obtain ⟨⟨found, r⟩, hloop, h⟩ := Except.bind_ok.mp h
        obtain ⟨⟨found', r'⟩, hloop', h'⟩ := Except.bind_ok.mp h'
        cases Except.pure_ok.mp h
        cases Except.pure_ok.mp h'
        have hend := List.foldlM_ok₂ (x := ([], a)) (y := ([], b))
          (fun x y : List I × Round κ I => x.1 ⊆ y.1 ∧ Below x.2.current y.2.current)
          ⟨List.Subset.refl _, hab⟩ ?_ hloop hloop'
        · exact ⟨hend.1, hend.2.put _ hend.1⟩
        rintro t _ ⟨u, x⟩ ⟨v, y⟩ ⟨u', x'⟩ ⟨v', y'⟩ ⟨huv, hxy⟩ hu hv
        cases t with
        | found ids =>
          obtain ⟨as, rfl, hu⟩ := Except.bind_ok.mp hu
          cases Except.pure_ok.mp hu
          cases Except.pure_ok.mp hv
          refine ⟨fun i hi => ?_, hxy⟩
          rw [mem_addAll] at hi ⊢
          exact hi.imp_left fun hi => huv hi
        | through k' image =>
          obtain ⟨⟨reached, _⟩, hin, hu⟩ := Except.bind_ok.mp hu
          obtain ⟨_, him, hu⟩ := Except.bind_ok.mp hu
          obtain ⟨⟨reached', _⟩, hin', hv⟩ := Except.bind_ok.mp hv
          obtain ⟨_, him', hv⟩ := Except.bind_ok.mp hv
          cases Except.pure_ok.mp hu
          cases Except.pure_ok.mp hv
          obtain ⟨hreached, hxy'⟩ := ih hxy hin hin'
          refine ⟨fun i hi => ?_, hxy'⟩
          rw [mem_images him] at hi
          rw [mem_images him']
          exact hi.imp (fun hi => huv hi) fun ⟨j, hj, h⟩ => ⟨j, hreached hj, h⟩

/-! ## Closure: a finished name is closed under its equation -/

/-- What a name inside an equation was read as, once its equation is finished: what this round
finished it with, what the previous round found when it was met on the path, or nothing when it has
no equation. -/
inductive ReadAs (S : System K I κ ε) (previous : List (κ × List I)) (path : List κ)
    (round : Round κ I) (k : K) : List I → Prop
  | finished {ids} : get round.current (S.key k) = some ids → ReadAs S previous path round k ids
  | cut : round.looped = true →
      S.key k ∈ path ∨ (get round.current (S.key k)).isSome →
      ReadAs S previous path round k ((get previous (S.key k)).getD [])
  | unknown : S.equation k = none → ReadAs S previous path round k []

/-- Every part of a list of terms answered, and lies inside `ids`, read as the round read it. -/
def Covers (S : System K I κ ε) (previous : List (κ × List I)) (path : List κ)
    (round : Round κ I) (terms : List (Term K I ε)) (ids : List I) : Prop :=
  (∀ x, .found x ∈ terms → ∃ as, x = .ok as ∧ as ⊆ ids) ∧
    ∀ k image, .through k image ∈ terms → ∃ reached, ReadAs S previous path round k reached ∧
      ∀ j ∈ reached, ∃ as, image j = .ok as ∧ as ⊆ ids

/-- Every finished name covers its equation. -/
def Settled (S : System K I κ ε) (Good : K → Prop) (previous : List (κ × List I))
    (path : List κ) (round : Round κ I) : Prop :=
  ∀ k, Good k → ∀ ids, get round.current (S.key k) = some ids →
    ∃ terms, S.equation k = some terms ∧ Covers S previous path round terms ids

theorem ReadAs.grows {path : List κ} {round round' : Round κ I} {k : K} {ids : List I}
    (h : ReadAs S previous path round k ids) (hg : Grows path round round') :
    ReadAs S previous path round' k ids := by
  cases h with
  | finished h => exact .finished (hg.keep h)
  | cut hl h =>
    refine .cut (hg.looped hl) (h.imp_right fun h => ?_)
    obtain ⟨v, hv⟩ := Option.isSome_iff_exists.mp h
    rw [hg.keep hv]
    rfl
  | unknown h => exact .unknown h

/-- A name taken off the path was finished. -/
theorem ReadAs.close {c : κ} {path : List κ} {round round' : Round κ I} {k : K} {ids : List I}
    (h : ReadAs S previous (c :: path) round k ids) (hg : Grows path round round')
    (hc : (get round'.current c).isSome) : ReadAs S previous path round' k ids := by
  cases h with
  | finished h => exact .finished (hg.keep h)
  | cut hl h =>
    refine .cut (hg.looped hl) ?_
    rcases h with h | h
    · rcases List.mem_cons.mp h with h | h
      · exact Or.inr (h ▸ hc)
      · exact Or.inl h
    · obtain ⟨v, hv⟩ := Option.isSome_iff_exists.mp h
      exact Or.inr (by rw [hg.keep hv]; rfl)
  | unknown h => exact .unknown h

theorem Covers.grows {path : List κ} {round round' : Round κ I} {terms : List (Term K I ε)}
    {ids ids' : List I} (h : Covers S previous path round terms ids)
    (hg : Grows path round round') (hids : ids ⊆ ids') :
    Covers S previous path round' terms ids' := by
  refine ⟨fun x hx => ?_, fun k image hk => ?_⟩
  · obtain ⟨as, has, hsub⟩ := h.1 x hx
    exact ⟨as, has, List.Subset.trans hsub hids⟩
  · obtain ⟨reached, hr, himage⟩ := h.2 k image hk
    refine ⟨reached, hr.grows hg, fun j hj => ?_⟩
    obtain ⟨as, has, hsub⟩ := himage j hj
    exact ⟨as, has, List.Subset.trans hsub hids⟩

theorem Covers.close {c : κ} {path : List κ} {round round' : Round κ I}
    {terms : List (Term K I ε)} {ids : List I}
    (h : Covers S previous (c :: path) round terms ids) (hg : Grows path round round')
    (hc : (get round'.current c).isSome) : Covers S previous path round' terms ids := by
  refine ⟨h.1, fun k image hk => ?_⟩
  obtain ⟨reached, hr, hj⟩ := h.2 k image hk
  exact ⟨reached, hr.close hg hc, hj⟩

/-- One more part evaluated is one more part covered. -/
theorem Covers.snoc {path : List κ} {inner : K → Round κ I → Except ε (List I × Round κ I)}
    {terms : List (Term K I ε)} {term : Term K I ε} {found found' : List I}
    {round round' : Round κ I} (h : Covers S previous path round terms found)
    (hg : Grows path round round') (ht : evalTerm inner (found, round) term = .ok (found', round'))
    (hread : ∀ k image reached, term = .through k image → inner k round = .ok (reached, round') →
      ReadAs S previous path round' k reached) :
    Covers S previous path round' (terms ++ [term]) found' := by
  rcases evalTerm_ok ht with ⟨as, rfl, rfl, rfl⟩ | ⟨k, image, reached, rfl, hin, him⟩
  · have := h.grows hg (fun i hi => mem_addAll.mpr (Or.inl hi) : found ⊆ addAll found as)
    refine ⟨fun bs hbs => ?_, fun k image hk => this.2 k image (by simpa using hk)⟩
    rcases List.mem_append.mp hbs with hbs | hbs
    · exact this.1 bs hbs
    · cases List.mem_singleton.mp hbs
      exact ⟨as, rfl, fun i hi => mem_addAll.mpr (Or.inr hi)⟩
  · have := h.grows hg (fun i hi => (mem_images him i).mpr (Or.inl hi) : found ⊆ found')
    refine ⟨fun as has => this.1 as (by simpa using has), fun k' image' hk' => ?_⟩
    rcases List.mem_append.mp hk' with hk' | hk'
    · exact this.2 k' image' hk'
    · cases List.mem_singleton.mp hk'
      refine ⟨reached, hread k image reached rfl hin, fun j hj => ?_⟩
      obtain ⟨as, has⟩ := image_ok him hj
      exact ⟨as, has, fun i hi => (mem_images him i).mpr (Or.inr ⟨j, hj, as, has, hi⟩)⟩

theorem Settled.cons {c : κ} {path : List κ} {round : Round κ I}
    (h : Settled S Good previous path round) : Settled S Good previous (c :: path) round := by
  intro k hk ids hget
  obtain ⟨terms, heq, hcov⟩ := h k hk ids hget
  refine ⟨terms, heq, hcov.1, fun k' image hk' => ?_⟩
  obtain ⟨reached, hr, hj⟩ := hcov.2 k' image hk'
  refine ⟨reached, ?_, hj⟩
  cases hr with
  | finished h => exact .finished h
  | cut hl h => exact .cut hl (h.imp_left (List.mem_cons_of_mem _))
  | unknown h => exact .unknown h

theorem Settled.grows {path : List κ} {round : Round κ I} {looped : Bool}
    (h : Settled S Good previous path round) (hl : round.looped = true → looped = true) :
    Settled S Good previous path { round with looped := looped } := by
  intro k hk ids hget
  obtain ⟨terms, heq, hcov⟩ := h k hk ids hget
  exact ⟨terms, heq, hcov.grows ⟨id, fun _ _ h => h, hl⟩ (List.Subset.refl _)⟩

theorem reach_settled (named : Named S Good) {fuel : ℕ} {path : List κ} {k : K}
    {round round' : Round κ I} {ids : List I} (hk : Good k)
    (hs : Settled S Good previous path round)
    (h : reach S previous stuck fuel path k round = .ok (ids, round')) :
    Settled S Good previous path round' ∧ ReadAs S previous path round' k ids := by
  induction fuel generalizing path k round ids round' with
  | zero => exact absurd h (by simp [reach])
  | succ fuel ih =>
    cases reach_answered h with
    | remembered hget => exact ⟨hs, .finished hget⟩
    | cut _ hpath => exact ⟨hs.grows fun _ => rfl, .cut rfl (Or.inl hpath)⟩
    | unknown _ _ heq => exact ⟨hs, .unknown heq⟩
    | @evaluated terms _ r hnone hpath heq hloop =>
      have hend := List.foldlM_ok (fun d x => Settled S Good previous (S.key k :: path) x.2 ∧
          Grows (S.key k :: path) round x.2 ∧ Covers S previous (S.key k :: path) x.2 d x.1)
        ⟨hs.cons, .refl .., fun _ h => absurd h List.not_mem_nil,
          fun _ _ h => absurd h List.not_mem_nil⟩ ?_ hloop
      · obtain ⟨hset, hgrow, hcov⟩ := hend
        have hput : get (put r.current (S.key k) ids) (S.key k) = some ids := get_put_self ..
        have hclose : Grows path r { r with current := put r.current (S.key k) ids } := by
          refine ⟨fun {c v} hc => ?_, fun c hc hn => ?_, id⟩
          · rwa [get_put_ne]
            rintro rfl
            rw [hgrow.unfinished _ List.mem_cons_self hnone] at hc
            cases hc
          · rwa [get_put_ne]
            rintro rfl
            exact hpath hc
        refine ⟨fun k' hk' ids' hget => ?_, .finished hput⟩
        rw [get_put] at hget
        split at hget
        · obtain rfl := named.inj hk hk' ‹_›
          cases hget
          exact ⟨terms, heq, hcov.close hclose (by rw [hput]; rfl)⟩
        · obtain ⟨terms', heq', hcov'⟩ := hset k' hk' ids' hget
          exact ⟨terms', heq', hcov'.close hclose (by rw [hput]; rfl)⟩
      rintro d t ⟨found, x⟩ ⟨found', y⟩ ht ⟨hset, hgrow, hcov⟩ hy
      have hstep : Settled S Good previous (S.key k :: path) y ∧
          Grows (S.key k :: path) x y ∧ ∀ k' image reached, t = .through k' image →
            reach S previous stuck fuel (S.key k :: path) k' x = .ok (reached, y) →
            ReadAs S previous (S.key k :: path) y k' reached := by
        rcases evalTerm_ok hy with ⟨as, rfl, rfl, rfl⟩ | ⟨k', image, reached, rfl, hin, him⟩
        · exact ⟨hset, .refl .., nofun⟩
        · obtain ⟨hset', hread⟩ := ih (named.closed hk heq ht) hset hin
          refine ⟨hset', reach_grows hin, fun k'' image' reached' e h' => ?_⟩
          cases e
          rw [hin] at h'
          cases h'
          exact hread
      exact ⟨hstep.1, hgrow.trans hstep.2.1, hcov.snoc hstep.2.1 hy hstep.2.2⟩

/-! ## The last round -/

/-- A round no loop was met in, or that found as many elements as the one before, has read every
name as what it found there. -/
theorem ReadAs.mem {round : Round κ I} {k : K} {i : I} {reached : List I}
    (h : ReadAs S previous [] round k reached) (hk : Good k)
    (hp : Sound S Good previous)
    (hle : ∀ c, (get previous c).getD [] ⊆ (get round.current c).getD [])
    (hlast : round.looped = false ∨ same previous round.current = true)
    (heq : S.equation k ≠ none) (hi : ∀ ids, get round.current (S.key k) = some ids → i ∈ ids) :
    i ∈ reached := by
  cases h with
  | finished h => exact hi _ h
  | unknown h => exact absurd h heq
  | cut hl h =>
    obtain ⟨ids, hids⟩ := Option.isSome_iff_exists.mp (h.resolve_left List.not_mem_nil)
    have hsame := hlast.resolve_left (by simp [hl])
    have hlen : ((get previous (S.key k)).getD []).length = ids.length := by
      have := of_decide_eq_true (List.all_eq_true.mp hsame _ (mem_of_get hids))
      cases hg : get previous (S.key k) <;> simpa [hg] using this
    have hsub : (get previous (S.key k)).getD [] ⊆ ids := by simpa [hids] using hle (S.key k)
    have hperm :=
      (List.subperm_of_subset (hp.getD hk).1 hsub).perm_of_length_le (Nat.le_of_eq hlen.symm)
    exact hperm.mem_iff.mpr (hi ids hids)

/-- **A last round misses nothing.** -/
theorem complete (named : Named S Good) {round : Round κ I}
    (hs : Settled S Good previous [] round) (hp : Sound S Good previous)
    (hle : ∀ c, (get previous c).getD [] ⊆ (get round.current c).getD [])
    (hlast : round.looped = false ∨ same previous round.current = true) {a : K × I}
    (h : Cut.Derives (OwedBase S) (OwedEdge S) a) :
    Good a.1 → ∀ reached, ReadAs S previous [] round a.1 reached → a.2 ∈ reached := by
  induction h with
  | @base a hb =>
    obtain ⟨terms, x, heq, ht, hi⟩ := hb
    refine fun hk reached hread => hread.mem hk hp hle hlast (by simp [heq]) fun ids hids => ?_
    obtain ⟨terms', heq', hcov⟩ := hs a.1 hk ids hids
    obtain rfl : terms = terms' := by simpa [heq] using heq'
    obtain ⟨as, has, hsub⟩ := hcov.1 x ht
    exact hsub (hi as has)
  | @step a b he _ ih =>
    obtain ⟨terms, image, heq, ht, hi⟩ := he
    refine fun hk reached hread => hread.mem hk hp hle hlast (by simp [heq]) fun ids hids => ?_
    obtain ⟨terms', heq', hcov⟩ := hs a.1 hk ids hids
    obtain rfl : terms = terms' := by simpa [heq] using heq'
    obtain ⟨inner, hinner, himage⟩ := hcov.2 b.1 image ht
    obtain ⟨as, has, hsub⟩ := himage b.2 (ih (named.closed hk heq ht) inner hinner)
    exact hsub (hi as has)

/-- What a round may start from: nothing, or a round that found more than the one before it. -/
def Rising (S : System K I κ ε) (stuck : ε) (fuel : ℕ) (k : K) (m : List (κ × List I)) : Prop :=
  m = [] ∨ ∃ m₀ ids round, (∀ c, (get m₀ c).getD [] ⊆ (get m c).getD []) ∧
    reach S m₀ stuck fuel [] k ⟨[], false⟩ = .ok (ids, round) ∧ round.current = m

theorem Rising.below {fuel : ℕ} {k : K} {round : Round κ I} {ids : List I}
    (h : Rising S stuck fuel k previous)
    (hr : reach S previous stuck fuel [] k ⟨[], false⟩ = .ok (ids, round)) (c : κ) :
    (get previous c).getD [] ⊆ (get round.current c).getD [] := by
  rcases h with rfl | ⟨m₀, ids₀, r₀, hle, h₀, rfl⟩
  · exact List.nil_subset _
  · exact ((reach_mono hle (fun _ => ⟨Iff.rfl, List.Subset.refl _⟩) h₀ hr).2 c).2

private theorem rounds_ok (named : Named S Good) {fuel : ℕ} {k : K} (hk : Good k) {n : ℕ}
    {found : List I} (hp : Sound S Good previous) (hrise : Rising S stuck fuel k previous)
    (h : rounds S stuck fuel k n previous = .ok (some found)) :
    found.Nodup ∧ (∀ i ∈ found, Derives S k i) ∧ ∀ i, Owed S k i → i ∈ found := by
  induction n generalizing previous with
  | zero => cases Except.pure_ok.mp h
  | succ n ih =>
    rw [rounds] at h
    obtain ⟨⟨ids, round⟩, hreach, h⟩ := Except.bind_ok.mp h
    have hsound₀ : Sound S Good (⟨[], false⟩ : Round κ I).current := fun _ _ _ h => by cases h
    have hset₀ : Settled S Good previous [] ⟨[], false⟩ := fun _ _ _ h => by cases h
    obtain ⟨⟨hnd, hder⟩, hsound⟩ := reach_sound named hp hk hsound₀ hreach
    obtain ⟨hset, hread⟩ := reach_settled named hk hset₀ hreach
    have hle := hrise.below hreach
    dsimp only at h
    split at h
    case isTrue hlast =>
      cases Except.pure_ok.mp h
      exact ⟨hnd, hder, fun i hi =>
        complete named hset hp hle (by simpa using hlast) hi hk _ hread⟩
    case isFalse => exact ih hsound (Or.inr ⟨previous, ids, round, hle, hreach, rfl⟩) h

/-- **Rounds that answer answer the least fixpoint** — and no step of a derivation failed. -/
theorem mem_rounds (named : Named S Good) {fuel : ℕ} {k : K} (hk : Good k) {n : ℕ}
    {found : List I} (h : rounds S stuck fuel k n [] = .ok (some found)) :
    found.Nodup ∧ (∀ i ∈ found, Derives S k i) ∧ ∀ i, Owed S k i → i ∈ found :=
  rounds_ok named hk (fun _ _ _ h => by cases h) (Or.inl rfl) h

/-! ## Fuel -/

/-- **A round that has fuel for every name does not run out**: each name it goes into is one more on
the path. -/
theorem reach_ne_stuck (named : Named S Good) {keys : List κ}
    (hkeys : ∀ k, Good k → ∀ terms, S.equation k = some terms → terms ≠ [] → S.key k ∈ keys)
    (hfound : ∀ k terms, S.equation k = some terms → .found (.error stuck) ∉ terms)
    (himage : ∀ k terms, S.equation k = some terms → ∀ k' image, .through k' image ∈ terms →
      ∀ i, image i ≠ .error stuck)
    {fuel : ℕ} {path : List κ} {k : K} {round : Round κ I} (hk : Good k)
    (hfuel : keys.countP (fun c => decide (c ∉ path)) < fuel) :
    reach S previous stuck fuel path k round ≠ .error stuck := by
  induction fuel generalizing path k round with
  | zero => omega
  | succ fuel ih =>
    intro h
    rw [reach] at h
    split at h
    · exact (Except.pure_error.mp h).elim
    split at h
    · exact (Except.pure_error.mp h).elim
    split at h
    · exact (Except.pure_error.mp h).elim
    rename_i hpath _ terms heq
    rcases Except.bind_error.mp h with h | ⟨_, _, h⟩
    · obtain ⟨x, t, ht, h⟩ := List.foldlM_error h
      cases t with
      | found ids =>
        rcases Except.bind_error.mp h with h | ⟨_, _, h⟩
        · exact hfound k terms heq (h ▸ ht)
        · exact (Except.pure_error.mp h).elim
      | through k' image =>
        have hmem := hkeys k hk terms heq (List.ne_nil_of_mem ht)
        have hlt := Cut.countP_notMem_cons_lt hmem hpath
        rcases Except.bind_error.mp h with h | ⟨_, _, h⟩
        · exact ih (named.closed hk heq ht) (by omega) h
        rcases Except.bind_error.mp h with h | ⟨_, _, h⟩
        · obtain ⟨_, j, _, h⟩ := List.foldlM_error h
          rcases Except.bind_error.mp h with h | ⟨_, _, h⟩
          · exact himage k terms heq k' image ht j h
          · exact (Except.pure_error.mp h).elim
        · exact (Except.pure_error.mp h).elim
    · exact (Except.pure_error.mp h).elim

theorem rounds_ne_stuck (named : Named S Good) {keys : List κ}
    (hkeys : ∀ k, Good k → ∀ terms, S.equation k = some terms → terms ≠ [] → S.key k ∈ keys)
    (hfound : ∀ k terms, S.equation k = some terms → .found (.error stuck) ∉ terms)
    (himage : ∀ k terms, S.equation k = some terms → ∀ k' image, .through k' image ∈ terms →
      ∀ i, image i ≠ .error stuck)
    {fuel : ℕ} {k : K} {n : ℕ} (hk : Good k) (hfuel : keys.length < fuel) :
    rounds S stuck fuel k n previous ≠ .error stuck := by
  induction n generalizing previous with
  | zero => exact fun h => (Except.pure_error.mp h).elim
  | succ n ih =>
    intro h
    rw [rounds] at h
    rcases Except.bind_error.mp h with h | ⟨_, _, h⟩
    · refine reach_ne_stuck named hkeys hfound himage hk ?_ h
      exact Nat.lt_of_le_of_lt List.countP_le_length hfuel
    · dsimp only at h
      split at h
      · exact (Except.pure_error.mp h).elim
      · exact ih h

end Rounds
