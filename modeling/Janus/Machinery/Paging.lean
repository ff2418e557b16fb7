import Janus.Machinery.Outcome
import Mathlib.Data.List.Sort

/-!
# Machinery/Paging — a listing cut into pages, and put back together

A page lists, in ascending order, what lies strictly past its cursor, as far as the cursor it hands
on.  `IsPage` is all a reader may rely on.  Draining — asking for the page past each cursor in turn,
until one hands on none — yields the whole listing, in order, with nothing twice
(`drain_ok`), in no more pages than there are elements and one (`drain_ne_stuck`).
-/

namespace Paging

universe u

variable {α : Type u} {ε : Type*} [LinearOrder α]

/-! ## Pages -/

/-- One page of a listing, and where the next one starts: `none` on the last. -/
structure Page (α : Type u) where
  items : List α
  nextCursor : Option α
deriving DecidableEq

/-- Strictly past a cursor; everything is past none. -/
def Past (after : Option α) (a : α) : Prop := ∀ c ∈ after, c < a

instance (after : Option α) (a : α) : Decidable (Past after a) :=
  decidable_of_iff ((after.all fun c => decide (c < a)) = true) (by cases after <;> simp [Past])

@[simp] theorem past_none (a : α) : Past none a := nofun

@[simp] theorem past_some {c a : α} : Past (some c) a ↔ c < a := by simp [Past]

/-- What a page of the listing of `P` past `after` may be. -/
structure IsPage (P : α → Prop) (after : Option α) (page : Page α) : Prop where
  ascending : page.items.Pairwise (· < ·)
  mem : ∀ a, a ∈ page.items ↔ P a ∧ Past after a ∧ ∀ c ∈ page.nextCursor, a ≤ c
  cursor_mem : ∀ c ∈ page.nextCursor, c ∈ page.items

/-- One page of `ids`, ascending, after the cursor. -/
def pageOf (ids : List α) (after : Option α) (limit : ℕ) : Page α :=
  let rest := (ids.insertionSort (· ≤ ·)).filter fun a => Past after a
  let items := rest.take limit
  ⟨items, if limit < rest.length then items.getLast? else none⟩

/-- The first few of an ascending list are what is not past the last of them. -/
theorem mem_take_iff {rest : List α} (h : rest.Pairwise (· < ·)) {n : ℕ} {c : α}
    (hc : (rest.take n).getLast? = some c) (a : α) : a ∈ rest.take n ↔ a ∈ rest ∧ a ≤ c := by
  obtain ⟨init, hinit⟩ := List.getLast?_eq_some_iff.mp hc
  rw [← List.take_append_drop n rest, hinit] at h
  obtain ⟨htake, _, hdrop⟩ := List.pairwise_append.mp h
  have hlast : ∀ x ∈ init, x < c := fun x hx =>
    (List.pairwise_append.mp htake).2.2 x hx c (by simp)
  constructor
  · intro ha
    refine ⟨List.mem_of_mem_take ha, ?_⟩
    rw [hinit, List.mem_append, List.mem_singleton] at ha
    exact ha.elim (fun ha => (hlast a ha).le) (·.le)
  · rintro ⟨ha, hle⟩
    rw [← List.take_append_drop n rest, List.mem_append] at ha
    exact ha.resolve_right fun ha => (hdrop c (by simp) a ha).not_ge hle

/-- The first `limit` of what is left, and where the rest starts. -/
def cut (rest : List α) (limit : ℕ) : Page α :=
  ⟨rest.take limit, if limit < rest.length then (rest.take limit).getLast? else none⟩

/-- **The first few of what is left are a page.** -/
theorem cut_isPage {P : α → Prop} {rest : List α} {after : Option α} (hrest : rest.Pairwise (· < ·))
    (hmem : ∀ a, a ∈ rest ↔ P a ∧ Past after a) {limit : ℕ} (hlimit : 0 < limit) :
    IsPage P after (cut rest limit) := by
  unfold cut
  refine ⟨hrest.sublist (List.take_sublist ..), fun a => ?_, fun c hc => ?_⟩
  · simp only [← and_assoc, ← hmem]
    split
    case isFalse h => simp [List.take_of_length_le (Nat.le_of_not_lt h)]
    case isTrue h =>
      obtain ⟨c, hc⟩ : ∃ c, (rest.take limit).getLast? = some c :=
        Option.isSome_iff_exists.mp (List.getLast?_isSome.mpr (List.ne_nil_of_length_pos (by
          rw [List.length_take]; omega)))
      simpa [hc] using mem_take_iff hrest hc a
  · dsimp only at hc
    split at hc
    · exact List.mem_of_getLast? hc
    · cases hc

/-- Sorted, what is listed once ascends. -/
theorem pairwise_insertionSort_lt {ids : List α} (hids : ids.Nodup) :
    (ids.insertionSort (· ≤ ·)).Pairwise (· < ·) :=
  (List.pairwise_insertionSort (· ≤ ·) ids).imp₂ (fun _ _ h hne => lt_of_le_of_ne h hne)
    ((List.perm_insertionSort _ ids).nodup_iff.mpr hids)

/-- **A page of a sorted listing is a page.** -/
theorem pageOf_isPage {ids : List α} (hids : ids.Nodup) (after : Option α) {limit : ℕ}
    (hlimit : 0 < limit) :
    IsPage (· ∈ ids) after (pageOf ids after limit) :=
  cut_isPage ((pairwise_insertionSort_lt hids).filter _) (by simp) hlimit

/-- Strictly less lies past the cursor a page hands on. -/
theorem IsPage.countP_lt {P : α → Prop} {after : Option α} {page : Page α} {c : α}
    (h : IsPage P after page) (hc : page.nextCursor = some c) {all : List α}
    (hall : ∀ a, P a → a ∈ all) : all.countP (fun a => decide (Past (some c) a)) <
      all.countP (fun a => decide (Past after a)) := by
  obtain ⟨hPc, hpast, -⟩ := (h.mem c).mp (h.cursor_mem c hc)
  have hsub : ∀ a, decide (Past (some c) a) = true → decide (Past after a) = true := fun a ha =>
    decide_eq_true fun d hd => (hpast d hd).trans (past_some.mp (of_decide_eq_true ha))
  exact List.countP_lt_countP (a := c) hsub (hall c hPc) (by simpa) (by simp)

/-- A page cut short after one of its items. -/
theorem IsPage.cutAt {P : α → Prop} {after next : Option α} {xs ys : List α} {c : α}
    (h : IsPage P after ⟨xs ++ ys, next⟩) (hc : xs.getLast? = some c) :
    IsPage P after ⟨xs, some c⟩ := by
  have hmem : c ∈ xs := List.mem_of_getLast? hc
  obtain ⟨hxs, _, hxys⟩ := List.pairwise_append.mp h.ascending
  obtain ⟨init, rfl⟩ := List.getLast?_eq_some_iff.mp hc
  have hle : ∀ a ∈ init ++ [c], a ≤ c := by
    intro a ha
    obtain ha | ha := List.mem_append.mp ha
    · exact ((List.pairwise_append.mp hxs).2.2 a ha c (by simp)).le
    · exact (List.mem_singleton.mp ha).le
  refine ⟨hxs, fun a => ?_, by simp⟩
  simp only [Option.mem_def, Option.some.injEq, forall_eq']
  constructor
  · intro ha
    obtain ⟨hP, hpast, -⟩ := (h.mem a).mp (List.mem_append_left ys ha)
    exact ⟨hP, hpast, hle a ha⟩
  · rintro ⟨hP, hpast, hac⟩
    have hcnext := ((h.mem c).mp (List.mem_append_left ys hmem)).2.2
    have ha := (h.mem a).mpr ⟨hP, hpast, fun d hd => hac.trans (hcnext d hd)⟩
    obtain ha | ha := List.mem_append.mp ha
    · exact ha
    · exact absurd (hxys c hmem a ha) (not_lt_of_ge hac)

/-- The page after a page, put behind it. -/
theorem IsPage.append {P : α → Prop} {after next : Option α} {xs ys : List α} {c : α}
    (hxs : IsPage P after ⟨xs, some c⟩) (hys : IsPage P (some c) ⟨ys, next⟩) :
    IsPage P after ⟨xs ++ ys, next⟩ := by
  have hpast : Past after c := ((hxs.mem c).mp (hxs.cursor_mem c rfl)).2.1
  have hmem := hxs.mem
  have hmem' := hys.mem
  simp only [Option.mem_def, Option.some.injEq, forall_eq'] at hmem
  simp only [past_some] at hmem'
  refine ⟨List.pairwise_append.mpr ⟨hxs.ascending, hys.ascending, fun a ha b hb => ?_⟩, fun a => ?_,
    fun d hd => List.mem_append_right _ (hys.cursor_mem d hd)⟩
  · exact lt_of_le_of_lt ((hmem a).mp ha).2.2 ((hmem' b).mp hb).2.1
  · change a ∈ xs ++ ys ↔ _
    rw [List.mem_append, hmem, hmem']
    constructor
    · rintro (⟨hP, ha, hac⟩ | ⟨hP, hca, hnext⟩)
      · refine ⟨hP, ha, fun d hd => hac.trans ?_⟩
        exact ((hmem' d).mp (hys.cursor_mem d hd)).2.1.le
      · exact ⟨hP, fun d hd => (hpast d hd).trans hca, hnext⟩
    · rintro ⟨hP, ha, hnext⟩
      exact (le_or_gt a c).imp (fun hac => ⟨hP, ha, hac⟩) fun hca => ⟨hP, hca, hnext⟩

/-- **What was read past a cursor**, as far as the next one: nothing yet, or a page. -/
def Reached (P : α → Prop) (after : Option α) (seen : List α) (cursor : Option α) : Prop :=
  seen = [] ∧ cursor = after ∨ ∃ c, cursor = some c ∧ IsPage P after ⟨seen, some c⟩

/-- The next page, put behind what was read. -/
theorem Reached.page {P : α → Prop} {after cursor : Option α} {seen : List α} {page : Page α}
    (h : Reached P after seen cursor) (hpage : IsPage P cursor page) :
    IsPage P after ⟨seen ++ page.items, page.nextCursor⟩ := by
  rcases h with ⟨rfl, rfl⟩ | ⟨c, rfl, hseen⟩
  · exact hpage
  · exact hseen.append hpage

omit [LinearOrder α] in
/-- A listing cut after the `n`th element of it that is kept. -/
theorem exists_prefix_filter (keep : α → Bool) {n : ℕ} (hn : 0 < n) {l : List α}
    (hl : n ≤ (l.filter keep).length) : ∃ c pre post, l = pre ++ post ∧
      pre.filter keep = (l.filter keep).take n ∧ pre.getLast? = some c ∧
      ((l.filter keep).take n).getLast? = some c := by
  induction l generalizing n with
  | nil => exact absurd hl (Nat.not_le.mpr hn)
  | cons a l ih =>
    by_cases ha : keep a = true
    · rw [List.filter_cons_of_pos ha] at hl ⊢
      obtain _ | _ | n := n
      · exact absurd hn (Nat.lt_irrefl 0)
      · exact ⟨a, [a], l, rfl, by simp [ha], rfl, by simp⟩
      · obtain ⟨c, pre, post, rfl, hpre, hc, hkept⟩ :=
          ih (Nat.succ_pos n) (Nat.le_of_succ_le_succ hl)
        refine ⟨c, a :: pre, post, rfl, ?_, ?_, ?_⟩
        · rw [List.filter_cons_of_pos ha, hpre, List.take_succ_cons]
        · rw [List.getLast?_cons, hc, Option.getD_some]
        · rw [List.take_succ_cons, List.getLast?_cons, hkept, Option.getD_some]
    · rw [List.filter_cons_of_neg ha] at hl ⊢
      obtain ⟨c, pre, post, rfl, hpre, hc, hkept⟩ := ih hn hl
      refine ⟨c, a :: pre, post, rfl, ?_, ?_, hkept⟩
      · rw [List.filter_cons_of_neg ha, hpre]
      · rw [List.getLast?_cons, hc, Option.getD_some]

/-! ## Draining -/

/-- Every item of every page, in at most `fuel` pages. -/
def drain (page : Option α → Except ε (Page α)) (stuck : ε) :
    ℕ → Option α → Except ε (List α)
  | 0, _ => throw stuck
  | fuel + 1, after => do
    let p ← page after
    match p.nextCursor with
    | none => pure p.items
    | some c => do pure (p.items ++ (← drain page stuck fuel (some c)))

variable {P : α → Prop} {page : Option α → Except ε (Page α)} {stuck : ε}

/-- **Pages put back together are the listing**, ascending and with nothing twice. -/
theorem drain_ok (hpage : ∀ after p, page after = .ok p → IsPage P after p) {fuel : ℕ}
    {after : Option α} {ids : List α} (h : drain page stuck fuel after = .ok ids) :
    ids.Pairwise (· < ·) ∧ ∀ a, a ∈ ids ↔ P a ∧ Past after a := by
  induction fuel generalizing after ids with
  | zero => cases h
  | succ fuel ih =>
    obtain ⟨p, hp, h⟩ := Except.bind_ok.mp h
    have hP := hpage after p hp
    have hmem := hP.mem
    split at h
    case h_1 hc =>
      obtain rfl := Except.pure_ok.mp h
      exact ⟨hP.ascending, fun a => by simpa [hc] using hmem a⟩
    case h_2 c hc =>
      obtain ⟨rest, hrest, h⟩ := Except.bind_ok.mp h
      obtain rfl := Except.pure_ok.mp h
      obtain ⟨hasc, hmem'⟩ := ih hrest
      have hpast : Past after c := ((hmem c).mp (hP.cursor_mem c hc)).2.1
      simp only [hc, Option.mem_def, Option.some.injEq, forall_eq'] at hmem
      refine ⟨List.pairwise_append.mpr ⟨hP.ascending, hasc, fun a ha b hb => ?_⟩, fun a => ?_⟩
      · exact lt_of_le_of_lt ((hmem a).mp ha).2.2 (past_some.mp ((hmem' b).mp hb).2)
      · rw [List.mem_append, hmem, hmem', past_some]
        constructor
        · rintro (⟨h, ha, _⟩ | ⟨h, ha⟩)
          · exact ⟨h, ha⟩
          · exact ⟨h, fun d hd => lt_trans (hpast d hd) ha⟩
        · rintro ⟨h, ha⟩
          exact (le_or_gt a c).imp (fun hle => ⟨h, ha, hle⟩) fun hlt => ⟨h, hlt⟩

/-- **Draining ends**: each page leaves strictly less past its cursor. -/
theorem drain_ne_stuck (hpage : ∀ after p, page after = .ok p → IsPage P after p)
    (hstuck : ∀ after, page after ≠ .error stuck) {all : List α} (hall : ∀ a, P a → a ∈ all)
    {fuel : ℕ} {after : Option α} (hfuel : all.countP (fun a => decide (Past after a)) < fuel) :
    drain page stuck fuel after ≠ .error stuck := by
  induction fuel generalizing after with
  | zero => omega
  | succ fuel ih =>
    intro h
    rcases Except.bind_error.mp h with h | ⟨p, hp, h⟩
    · exact hstuck after h
    have hP := hpage after p hp
    split at h
    case h_1 => exact (Except.pure_error.mp h).elim
    case h_2 c hc =>
      rcases Except.bind_error.mp h with h | ⟨_, _, h⟩
      · have hlt := hP.countP_lt hc hall
        exact ih (by omega) h
      · exact (Except.pure_error.mp h).elim

omit [LinearOrder α] in
/-- Draining throws nothing of its own but `stuck`. -/
theorem drain_error {fuel : ℕ} {after : Option α} {e : ε}
    (h : drain page stuck fuel after = .error e) : e = stuck ∨ ∃ after, page after = .error e := by
  induction fuel generalizing after with
  | zero =>
    cases h
    exact Or.inl rfl
  | succ fuel ih =>
    rcases Except.bind_error.mp h with h | ⟨p, _, h⟩
    · exact Or.inr ⟨after, h⟩
    split at h
    case h_1 => exact (Except.pure_error.mp h).elim
    case h_2 c _ =>
      rcases Except.bind_error.mp h with h | ⟨_, _, h⟩
      · exact ih h
      · exact (Except.pure_error.mp h).elim

/-- **A listing whose pages never fail is drained**, in no more pages than it has elements and
one. -/
theorem drain_total {page : Option α → Page α} (hpage : ∀ after, IsPage P after (page after))
    {all : List α} (hall : ∀ a, P a → a ∈ all) {fuel : ℕ} (hfuel : all.length < fuel) (stuck : ε) :
    ∃ ids, drain (fun after => .ok (page after)) stuck fuel none = .ok ids ∧
      ids.Pairwise (· < ·) ∧ ∀ a, a ∈ ids ↔ P a := by
  have hok : ∀ after p, (.ok (page after) : Except ε (Page α)) = .ok p → IsPage P after p :=
    fun after p h => Except.ok.inj h ▸ hpage after
  cases hdrain : drain (fun after => (.ok (page after) : Except ε (Page α))) stuck fuel none with
  | ok ids =>
    obtain ⟨hasc, hmem⟩ := drain_ok hok hdrain
    exact ⟨ids, rfl, hasc, by simpa using hmem⟩
  | error e =>
    obtain rfl | ⟨_, h⟩ := drain_error hdrain
    · exact absurd hdrain (drain_ne_stuck hok (fun _ => nofun) hall
        (lt_of_le_of_lt List.countP_le_length hfuel))
    · cases h

/-- **…and it is one listing**, whatever more pages there may be. -/
theorem drain_settles {page : Option α → Page α} (hpage : ∀ after, IsPage P after (page after))
    {all : List α} (hall : ∀ a, P a → a ∈ all) (stuck : ε) :
    ∃ ids, (∀ fuel, (ids.length < fuel →
          drain (fun after => .ok (page after)) stuck fuel none = .ok ids) ∧
        ∀ found, drain (fun after => .ok (page after)) stuck fuel none = .ok found → found = ids) ∧
      ids.Pairwise (· < ·) ∧ ∀ a, a ∈ ids ↔ P a := by
  obtain ⟨ids, -, hasc, hmem⟩ := drain_total hpage hall (Nat.lt_succ_self _) stuck
  have hone : ∀ fuel found, drain (fun after => .ok (page after)) stuck fuel none = .ok found →
      found = ids := by
    intro fuel found hfound
    obtain ⟨hasc', hmem'⟩ := drain_ok (fun after p h => Except.ok.inj h ▸ hpage after) hfound
    exact hasc'.eq_of_mem_iff hasc fun a => by rw [hmem', hmem, and_iff_left (past_none a)]
  refine ⟨ids, fun fuel => ⟨fun hfuel => ?_, hone fuel⟩, hasc, hmem⟩
  obtain ⟨found, hfound, -⟩ := drain_total hpage (fun a => (hmem a).mpr) hfuel stuck
  rw [hfound, hone fuel found hfound]

/-! ## Cursors of another kind -/

section Cursors

variable {κ : Type u}

/-- One page, and where the next one starts, by a cursor that is no element. -/
structure CursorPage (α κ : Type u) where
  items : List α
  nextCursor : Option κ
deriving DecidableEq

/-- A page whose cursor is minted from an element. -/
def Page.mint (mint : α → κ) (page : Page α) : CursorPage α κ :=
  ⟨page.items, page.nextCursor.map mint⟩

/-- Every item of every page, in at most `fuel` pages. -/
def drainCursor (page : Option κ → Except ε (CursorPage α κ)) (stuck : ε) :
    ℕ → Option κ → Except ε (List α)
  | 0, _ => throw stuck
  | fuel + 1, after => do
    let p ← page after
    match p.nextCursor with
    | none => pure p.items
    | some c => do pure (p.items ++ (← drainCursor page stuck fuel (some c)))

omit [LinearOrder α] in
/-- **Draining by cursors is draining by the elements they are minted from**, where every cursor
handed on is read back. -/
theorem drainCursor_eq {mint : α → κ} {Q : α → Prop}
    {byCursor : Option κ → Except ε (CursorPage α κ)}
    (hread : ∀ after : Option α, (∀ c ∈ after, Q c) →
      byCursor (after.map mint) = (page after).map (·.mint mint))
    (hQ : ∀ after p, page after = .ok p → ∀ c ∈ p.nextCursor, Q c) (fuel : ℕ) {after : Option α}
    (hafter : ∀ c ∈ after, Q c) :
    drainCursor byCursor stuck fuel (after.map mint) = drain page stuck fuel after := by
  induction fuel generalizing after with
  | zero => rfl
  | succ fuel ih =>
    rw [drainCursor, drain, hread after hafter]
    cases hp : page after with
    | error e => rfl
    | ok p =>
      have hnext := hQ after p hp
      simp only [Except.map, Page.mint, Except.ok_bind]
      cases hc : p.nextCursor with
      | none => rfl
      | some c =>
        rw [hc] at hnext
        have hrest : drainCursor byCursor stuck fuel (some (mint c)) =
          drain page stuck fuel (some c) :=
          ih hnext
        exact congrArg (fun r => r >>= fun rest => pure (p.items ++ rest)) hrest

/-! ### Pages filtered, and asked for differently each time -/

/-- Every item of every page, in at most `fuel` pages, the `n`th asked for as `page n`. -/
def drainEach (page : ℕ → Option κ → Except ε (CursorPage α κ)) (stuck : ε) :
    ℕ → ℕ → Option κ → Except ε (List α)
  | 0, _, _ => throw stuck
  | fuel + 1, n, after => do
    let p ← page n after
    match p.nextCursor with
    | none => pure p.items
    | some c => do pure (p.items ++ (← drainEach page stuck fuel (n + 1) (some c)))

/-- **Filtered pages put together are the listing, filtered**: in order, each once, however each
page was cut, in no more pages than there are elements and one. -/
theorem drainEach_ok {P : α → Prop} {keep : α → Bool} {mint : α → κ}
    {page : ℕ → Option κ → Except ε (CursorPage α κ)}
    (hpage : ∀ n (after : Option α), (∀ c ∈ after, P c) → ∃ seen : Page α,
      IsPage P after seen ∧
        page n (after.map mint) = .ok ⟨seen.items.filter keep, seen.nextCursor.map mint⟩)
    {all : List α} (hall : ∀ a, P a → a ∈ all) {stuck : ε} {fuel n : ℕ} {after : Option α}
    (hafter : ∀ c ∈ after, P c) (hfuel : all.countP (fun a => decide (Past after a)) < fuel) :
    ∃ items, drainEach page stuck fuel n (after.map mint) = .ok items ∧ items.Pairwise (· < ·) ∧
      ∀ a, a ∈ items ↔ (P a ∧ Past after a) ∧ keep a = true := by
  induction fuel generalizing n after with
  | zero => exact absurd hfuel (Nat.not_lt_zero _)
  | succ fuel ih =>
    obtain ⟨⟨seen, next⟩, hseen, hok⟩ := hpage n after hafter
    rw [drainEach, hok]
    have hmem := hseen.mem
    cases next with
    | none =>
      refine ⟨_, rfl, hseen.ascending.filter _, fun a => ?_⟩
      simpa using and_congr_left fun _ => hmem a
    | some c =>
      obtain ⟨hPc, hpast, -⟩ := (hmem c).mp (hseen.cursor_mem c rfl)
      have hlt := hseen.countP_lt rfl hall
      have hnext : ∀ d ∈ some c, P d := by
        rintro d ⟨⟩
        exact hPc
      obtain ⟨rest, hrest, hasc, hmem'⟩ := ih (n := n + 1) hnext (by omega)
      refine ⟨seen.filter keep ++ rest, ?_, ?_, fun a => ?_⟩
      · change (do pure (seen.filter keep ++
          (← drainEach page stuck fuel (n + 1) ((some c).map mint)))) = _
        rw [hrest]
        rfl
      · refine List.pairwise_append.mpr ⟨hseen.ascending.filter _, hasc, fun a ha b hb => ?_⟩
        have hac := ((hmem a).mp (List.mem_of_mem_filter ha)).2.2 c rfl
        exact lt_of_le_of_lt hac (past_some.mp ((hmem' b).mp hb).1.2)
      · simp only [Option.mem_def, Option.some.injEq, forall_eq'] at hmem
        rw [List.mem_append, List.mem_filter, hmem', ← or_and_right, past_some, hmem]
        refine and_congr_left fun _ => ⟨?_, fun ⟨hP, ha⟩ => ?_⟩
        · rintro (⟨hP, ha, -⟩ | ⟨hP, ha⟩)
          · exact ⟨hP, ha⟩
          · exact ⟨hP, fun d hd => (hpast d hd).trans ha⟩
        · exact (le_or_gt a c).imp (fun hac => ⟨hP, ha, hac⟩) fun hca => ⟨hP, hca⟩

end Cursors

end Paging
