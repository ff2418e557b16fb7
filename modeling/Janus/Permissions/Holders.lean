import Janus.Permissions.Memory
import Janus.Permissions.List
import Janus.Js.Utf8

/-!
# Permissions/Holders — `holders()`

The single entities holding a relation on an object, by pages: read from `findHolders` when the
store has it and from `findEntities` otherwise, and past a predicate the store cannot see, within a
budget (`scanHolders`).  Pages are cut by what was found and by what was looked at; either way a
page is what the predicate keeps of a page of the store's own order (`scanHolders_ok`), and so
nothing is lost between two of them (`holders_drain`).
-/

namespace Janus.Permissions

open Js Paging

variable {Ctx : Type}

/-! ## What a caller passes -/

/-- A function a caller passed, or did not. -/
inductive FunctionArg (φ : Type) where
  | undefined
  | function (f : φ)
  | other

/-- A `scanLimit` a caller passed: absent, a number with no fraction, or anything else. -/
inductive ScanLimitArg where
  | absent
  | integer (n : ℤ)
  | infinity
  | other
deriving DecidableEq

/-- Which holders a page of `holders()` lists, and how many.  What `matches` answers is read as a
boolean; what `matchesMany` answers is `none` when it is no array. -/
structure HoldersPage where
  after : Value
  first : LimitArg
  search : Value
  matches_ : FunctionArg (Entity → Except Failure Bool)
  matchesMany : FunctionArg (List Entity → Except Failure (Option (List Bool)))
  scanLimit : ScanLimitArg

/-- Holders one call looks at with a predicate, unless `scanLimit` says otherwise. -/
def DEFAULT_SCAN_LIMIT : ℕ := 500

/-- What a page keeps beyond what the store sees, the holders asked at once, and the budget: `none`
without end. -/
structure Predicate where
  judge : List Entity → Except Failure (List Bool)
  step : ℕ
  scanLimit : Option ℕ

/-- The budget a call is given. -/
def scanLimitOf (scanLimit : ScanLimitArg) (where_ : Str) : Except Failure (Option ℕ) :=
  match scanLimit with
  | .absent => pure (some DEFAULT_SCAN_LIMIT)
  | .infinity => pure none
  | .integer n => if 1 ≤ n ∧ n ≤ 2 ^ 53 - 1 then pure (some n.toNat) else refused
  | .other => refused
where
  refused : Except Failure (Option ℕ) := throw <| .typeError <|
    where_ ++ js ": scanLimit must be a positive integer, or Infinity"

/-- The cursor of a call. -/
def afterOf (after : Value) (where_ : Str) : Except Failure (Option Str) :=
  match after with
  | .undefined | .null => pure none
  | .str cursor => pure (some cursor)
  | .other _ =>
    throw <| .typeError <| where_ ++ js ": after must be the nextCursor of a page, or null"

/-- The text of a call. -/
def searchOf (search : Value) (where_ : Str) : Except Failure (Option Str) :=
  match search with
  | .undefined => pure none
  | .str text => pure (some text)
  | .null | .other _ => throw <| .typeError <| where_ ++ js ": search must be a string, or absent"

/-- `matches`, asked of the one holder of a batch. -/
def judgeOne (matches_ : Entity → Except Failure Bool) (batch : List Entity) :
    Except Failure (List Bool) :=
  match batch with
  | [] => pure []
  | holder :: _ => return [← matches_ holder]

/-- `matchesMany`, held to one answer per holder. -/
def judgeMany (where_ : Str) (matchesMany : List Entity → Except Failure (Option (List Bool)))
    (batch : List Entity) : Except Failure (List Bool) := do
  match ← matchesMany batch with
  | some answers => if answers.length = batch.length then pure answers else miscounted
  | none => miscounted
where
  miscounted : Except Failure (List Bool) := throw <| .typeError <|
    where_ ++ js ": matchesMany must answer one boolean per holder, in order"

/-- The predicate and budget of a call, or `none` without a predicate; refuses a bad option. -/
def checkedPredicate (where_ : Str) (options : HoldersPage) : Except Failure (Option Predicate) :=
  match options.matches_, options.matchesMany with
  | .other, _ => throw <| .typeError <| where_ ++ js ": matches must be a function, or absent"
  | _, .other => throw <| .typeError <| where_ ++ js ": matchesMany must be a function, or absent"
  | .function _, .function _ =>
    throw <| .typeError <| where_ ++ js ": matches and matchesMany are exclusive, pass one"
  | .undefined, .function matchesMany => do
    let scanLimit ← scanLimitOf options.scanLimit where_
    pure (some ⟨judgeMany where_ matchesMany, MAX_PAGE_SIZE, scanLimit⟩)
  | .function matches_, .undefined => do
    let scanLimit ← scanLimitOf options.scanLimit where_
    pure (some ⟨judgeOne matches_, 1, scanLimit⟩)
  | .undefined, .undefined => do
    let _ ← scanLimitOf options.scanLimit where_
    pure none

/-! ## Looking at holders -/

/-- The holders kept so far, how many were looked at, and the batches the predicate was asked. -/
structure Looked where
  kept : List Entity
  scanned : ℕ
  asked : List (List Entity)

/-- What one call answers, and the batches its predicate was asked. -/
structure Answer where
  page : CursorPage Entity Str
  asked : List (List Entity)

/-- A list in pieces of `step`. -/
def batches {α : Type} (step : ℕ) : List α → List (List α)
  | [] => []
  | a :: rest => (a :: rest.take (step - 1)) :: batches step (rest.drop (step - 1))
termination_by l => l.length
decreasing_by
  rw [List.length_drop, List.length_cons]
  omega

/-- Keeps the holders of a batch answered `true`, until one more than the page is known. -/
def keepEach (limit : ℕ) (kept : List Entity) : List Entity → List Bool → List Entity
  | [], _ => kept
  | holder :: batch, answers =>
    let kept := if answers.headD false then kept ++ [holder] else kept
    if limit < kept.length then kept else keepEach limit kept batch answers.tail

/-- Asks about one batch after the other, until one more than the page is known. -/
def judgeEach (judge : List Entity → Except Failure (List Bool)) (limit : ℕ) (looked : Looked) :
    List (List Entity) → Except Failure Looked
  | [] => pure looked
  | batch :: rest => do
    let answers ← judge batch
    let looked : Looked :=
      ⟨keepEach limit looked.kept batch answers, looked.scanned + batch.length,
        looked.asked ++ [batch]⟩
    if limit < looked.kept.length then pure looked else judgeEach judge limit looked rest

/-- What the budget leaves of a page. -/
def visibleOf (scanLimit : Option ℕ) (scanned : ℕ) (items : List Entity) : List Entity :=
  match scanLimit with
  | none => items
  | some scanLimit => items.take (scanLimit - scanned)

/-- The cursor after the last of some holders. -/
def cursorAfter (holders : List Entity) : Except Failure Str :=
  match holders.getLast? with
  | some last => pure (holderCursor last)
  | none => throw (.typeError (js "Cannot read properties of undefined (reading 'type')"))

/-- ReadsPages the largest pages and keeps what passes, until one more than the page is known or the
budget is spent: the holders kept so far, and a cursor after the last one looked at. -/
def scanHolders (read : Option Str → ℕ → Except Failure (CursorPage Entity Str)) (limit : ℕ)
    (predicate : Predicate) : ℕ → Looked → Option Str → Except Failure Answer
  | 0, _, _ => throw .outOfFuel
  | fuel + 1, looked, cursor => do
    let page ← read cursor MAX_PAGE_SIZE
    let visible := visibleOf predicate.scanLimit looked.scanned page.items
    let looked ← judgeEach predicate.judge limit looked (batches predicate.step visible)
    if limit < looked.kept.length then
      let items := looked.kept.take limit
      return ⟨⟨items, some (← cursorAfter items)⟩, looked.asked⟩
    if visible.length < page.items.length then
      return ⟨⟨looked.kept, some (← cursorAfter visible)⟩, looked.asked⟩
    match page.nextCursor with
    | none => return ⟨⟨looked.kept, none⟩, looked.asked⟩
    | some next =>
      if predicate.scanLimit.any (· ≤ looked.scanned) then
        return ⟨⟨looked.kept, some next⟩, looked.asked⟩
      scanHolders read limit predicate fuel looked (some next)

/-! ## `holders()` -/

/-- What `holders()` asks of a store, which may page holders itself. -/
structure HolderStore where
  findEntities : Entity → Str → Except Failure (List Entity)
  findHolders : Option (HolderPageRequest → Except Failure (CursorPage Entity Str))

variable (lower : Str → Str)

/-- One page of the store's own, or cut from all its holders. -/
def HolderStore.read (store : HolderStore) (entity : Entity) (relation : Str) (search : Option Str)
    (where_ : Str) (cursor : Option Str) (size : ℕ) : Except Failure (CursorPage Entity Str) :=
  match store.findHolders with
  | some findHolders => findHolders ⟨entity, relation, cursor, size, search⟩
  | none => do
    let all ← store.findEntities entity relation
    pageOfHolders lower all cursor size search where_

/-- One page of the single entities holding `relation` on `object`. -/
def holders (model : ResolvedModel Ctx) (store : HolderStore) (fuel : ℕ) (object : Arg)
    (relation : Str) (options : HoldersPage) : Except Failure Answer := do
  let where_ := js "holders"
  let limit ← pageLimit options.first where_
  let after ← afterOf options.after where_
  let text ← searchOf options.search where_
  let predicate ← checkedPredicate where_ options
  let target ← targetOf model object relation where_
  let search := text.filter fun text => text ≠ []
  -- No stored id holds a NUL or a lone surrogate: no store is asked.
  if search.any fun search => !isStorable search then return ⟨⟨[], none⟩, []⟩
  if let some cursor := after.filter fun cursor => !isStorable cursor then
    throw (invalidCursor where_ cursor)
  let read := store.read lower target.entity relation search where_
  match predicate with
  | none => return ⟨← read after limit, []⟩
  | some predicate => scanHolders read limit predicate fuel ⟨[], 0, []⟩ after

/-- The page past a cursor, asked for with these options. -/
def pageAfter (model : ResolvedModel Ctx) (store : HolderStore) (fuel : ℕ) (object : Arg)
    (relation : Str) (options : HoldersPage) (after : Option Str) :
    Except Failure (CursorPage Entity Str) :=
  (holders lower model store fuel object relation
    { options with after := after.elim .null .str }).map (·.page)

/-! ## A batch after the other -/

variable {lower}

@[simp] theorem flatten_batches {α : Type} (step : ℕ) (l : List α) :
    (batches step l).flatten = l := by
  fun_induction batches step l with
  | case1 => rfl
  | case2 a rest ih => rw [List.flatten_cons, ih, List.cons_append, List.take_append_drop]

theorem eq_singleton_of_mem_batches {α : Type} {l batch : List α} (h : batch ∈ batches 1 l) :
    ∃ a, batch = [a] := by
  induction l with
  | nil =>
    rw [batches] at h
    cases h
  | cons a l ih =>
    rw [batches, List.mem_cons] at h
    exact h.elim (fun h => ⟨a, h⟩) ih

/-- **A batch adds what the predicate keeps of it**, up to one more than the page. -/
theorem keepEach_eq {p : Entity → Bool} {limit : ℕ} {kept : List Entity}
    (hkept : kept.length ≤ limit)
    (batch : List Entity) :
    keepEach limit kept batch (batch.map p) = (kept ++ batch.filter p).take (limit + 1) := by
  induction batch generalizing kept with
  | nil => simp [keepEach, List.take_of_length_le (Nat.le_succ_of_le hkept)]
  | cons holder batch ih =>
    rw [keepEach]
    simp only [List.map_cons, List.headD_cons, List.tail_cons]
    by_cases hp : p holder = true
    · rw [if_pos hp, List.filter_cons_of_pos hp, List.append_cons kept holder (batch.filter p)]
      split
      case isTrue hfull =>
        have hlength : (kept ++ [holder]).length = limit + 1 := by
          simp only [List.length_append, List.length_singleton] at hfull ⊢
          omega
        rw [← hlength, List.take_left]
      case isFalse hroom => exact ih (Nat.le_of_not_lt hroom)
    · rw [if_neg hp, List.filter_cons_of_neg hp, if_neg (Nat.not_lt.mpr hkept)]
      exact ih hkept

/-- **What was kept** of the holders seen so far: what the predicate keeps of them, as far as one
more than the page. -/
def Looked.Of (looked : Looked) (p : Entity → Bool) (limit : ℕ) (seen : List Entity) : Prop :=
  looked.kept = (seen.filter p).take (limit + 1)

/-- As long as the page is not full, nothing kept was left out. -/
theorem Looked.Of.kept_eq {looked : Looked} {p : Entity → Bool} {limit : ℕ} {seen : List Entity}
    (h : looked.Of p limit seen) (hroom : looked.kept.length ≤ limit) :
    looked.kept = seen.filter p := by
  rw [h, List.length_take] at hroom
  rw [h, List.take_of_length_le (by omega)]

theorem judgeEach_ok {judge : List Entity → Except Failure (List Bool)}
    {p : Entity → Bool} {limit : ℕ}
    {bs : List (List Entity)} (hjudge : ∀ batch ∈ bs, judge batch = .ok (batch.map p))
    {looked : Looked} {seen : List Entity} (h : looked.Of p limit seen)
    (hroom : looked.kept.length ≤ limit) : ∃ looked', judgeEach judge limit looked bs =
      .ok looked' ∧
      looked'.Of p limit (seen ++ bs.flatten) := by
  induction bs generalizing looked seen with
  | nil => exact ⟨looked, rfl, by simpa using h⟩
  | cons batch bs ih =>
    obtain ⟨hbatch, hjudge⟩ := List.forall_mem_cons.mp hjudge
    have hkept : keepEach limit looked.kept batch (batch.map p) =
        ((seen ++ batch).filter p).take (limit + 1) := by
      rw [keepEach_eq hroom, h.kept_eq hroom, List.filter_append]
    rw [judgeEach, hbatch, List.flatten_cons, ← List.append_assoc]
    simp only [Except.ok_bind]
    split
    case isTrue hfull =>
      -- One more than the page is known: what comes after changes nothing of it.
      have hlength : limit + 1 ≤ ((seen ++ batch).filter p).length := by
        rw [hkept, List.length_take] at hfull
        omega
      refine ⟨_, rfl, ?_⟩
      rw [Looked.Of, List.filter_append (seen ++ batch),
        List.take_append_of_le_length hlength, ← hkept]
    case isFalse hroom' => exact ih hjudge hkept (Nat.le_of_not_lt hroom')

/-- What was asked is what was counted, and no more than there was to ask. -/
theorem judgeEach_asked {judge : List Entity → Except Failure (List Bool)} {limit : ℕ}
    {bs : List (List Entity)} {looked looked' : Looked}
    (h : judgeEach judge limit looked bs = .ok looked')
    (hscanned : looked.scanned = looked.asked.flatten.length) :
    looked'.scanned = looked'.asked.flatten.length ∧
      looked'.scanned ≤ looked.scanned + bs.flatten.length := by
  induction bs generalizing looked with
  | nil =>
    obtain rfl := Except.pure_ok.mp h
    exact ⟨hscanned, Nat.le_add_right ..⟩
  | cons batch bs ih =>
    obtain ⟨answers, -, h⟩ := Except.bind_ok.mp h
    rw [List.flatten_cons, List.length_append]
    have hasked : looked.scanned + batch.length = (looked.asked ++ [batch]).flatten.length := by
      simp [hscanned]
    dsimp only at h
    split at h
    case isTrue =>
      obtain rfl := Except.pure_ok.mp h
      exact ⟨hasked, by dsimp only; omega⟩
    case isFalse =>
      obtain ⟨heq, hle⟩ := ih h hasked
      exact ⟨heq, by dsimp only at hle; omega⟩

/-! ## Past a predicate -/

theorem visibleOf_prefix (scanLimit : Option ℕ) (scanned : ℕ) (items : List Entity) :
    visibleOf scanLimit scanned items <+: items := by
  cases scanLimit with
  | none => exact List.prefix_rfl
  | some scanLimit => exact List.take_prefix ..

/-- What is looked at is within the budget. -/
theorem length_visibleOf {scanLimit : Option ℕ} {scanned : ℕ} (h : ∀ n ∈ scanLimit, scanned < n)
    (items : List Entity) :
    ∀ n ∈ scanLimit, scanned + (visibleOf scanLimit scanned items).length ≤ n := by
  rintro n rfl
  have := h n rfl
  rw [visibleOf, List.length_take]
  omega

/-- A page is cut by the budget after one of its items at least. -/
theorem visibleOf_ne_nil {scanLimit : Option ℕ} {scanned : ℕ} (h : ∀ n ∈ scanLimit, scanned < n)
    {items : List Entity} (hcut : (visibleOf scanLimit scanned items).length < items.length) :
    visibleOf scanLimit scanned items ≠ [] := by
  cases scanLimit with
  | none => exact absurd hcut (Nat.lt_irrefl _)
  | some scanLimit =>
    have := h scanLimit rfl
    intro hnil
    rw [visibleOf, List.take_eq_nil_iff] at hnil
    rcases hnil with hzero | rfl
    · omega
    · exact absurd hcut (by simp [visibleOf])

/-- **Reads answer pages** of the listing of `P`, past each cursor they handed on. -/
def ReadsPages (read : Option Str → ℕ → Except Failure (CursorPage Entity Str))
    (P : Entity → Prop) : Prop :=
  ∀ (after : Option Entity) (limit : ℕ), 0 < limit → (∀ c ∈ after, P c) → ∃ page : Page Entity,
    read (after.map holderCursor) limit = .ok (page.mint holderCursor) ∧ IsPage P after page

/-- **A predicate answers as `p`** on every batch it is handed. -/
def Predicate.Judges (predicate : Predicate) (p : Entity → Bool) : Prop :=
  ∀ holders, ∀ batch ∈ batches predicate.step holders, predicate.judge batch = .ok (batch.map p)

section Scan

variable {read : Option Str → ℕ → Except Failure (CursorPage Entity Str)} {P : Entity → Prop}
  {p : Entity → Bool} {predicate : Predicate} {limit : ℕ}

/-- **A scan answers what the predicate keeps of a page** of the store's own order. -/
theorem scanHolders_ok (hread : ReadsPages read P) (hjudge : predicate.Judges p)
    (hlimit : 0 < limit)
    {all : List Entity} (hall : ∀ e, P e → e ∈ all) {after cursor : Option Entity}
    (hafter : ∀ c ∈ after, P c) {looked : Looked} {seen : List Entity}
    (hreached : Reached P after seen cursor) (hof : looked.Of p limit seen)
    (hroom : looked.kept.length ≤ limit) (hbudget : ∀ n ∈ predicate.scanLimit, looked.scanned < n)
    {fuel : ℕ} (hfuel : all.countP (fun e => decide (Past cursor e)) < fuel) :
    ∃ (page : Page Entity) (asked : List (List Entity)), IsPage P after page ∧
      scanHolders read limit predicate fuel looked (cursor.map holderCursor) =
        .ok ⟨⟨page.items.filter p, page.nextCursor.map holderCursor⟩, asked⟩ := by
  induction fuel generalizing looked seen cursor with
  | zero => exact absurd hfuel (Nat.not_lt_zero _)
  | succ fuel ih =>
    have hcursor : ∀ c ∈ cursor, P c := by
      rcases hreached with ⟨-, rfl⟩ | ⟨c, rfl, hseen⟩
      · exact hafter
      · rintro _ ⟨⟩
        exact ((hseen.mem c).mp (hseen.cursor_mem c rfl)).1
    obtain ⟨page, hok, hpage⟩ := hread cursor MAX_PAGE_SIZE (by decide) hcursor
    rw [scanHolders, hok]
    simp only [Except.ok_bind, Page.mint]
    generalize hvisible : visibleOf predicate.scanLimit looked.scanned page.items = visible
    obtain ⟨unseen, hunseen⟩ : visible <+: page.items := hvisible ▸ visibleOf_prefix ..
    obtain ⟨looked', hjudged, hof'⟩ := judgeEach_ok (hjudge visible) hof hroom
    rw [flatten_batches] at hof'
    rw [hjudged]
    simp only [Except.ok_bind]
    have hnext : IsPage P after ⟨seen ++ visible ++ unseen, page.nextCursor⟩ := by
      rw [List.append_assoc, hunseen]
      exact hreached.page hpage
    split
    case isTrue hfull =>
      have hmany : limit ≤ ((seen ++ visible).filter p).length := by
        rw [hof', List.length_take] at hfull
        omega
      obtain ⟨c, pre, post, hsplit, hpre, hc, hlast⟩ := exists_prefix_filter p hlimit hmany
      have hitems : looked'.kept.take limit = pre.filter p := by
        rw [hof', List.take_take, Nat.min_eq_left (Nat.le_succ limit), hpre]
      rw [hsplit, List.append_assoc] at hnext
      refine ⟨⟨pre, some c⟩, looked'.asked, hnext.cutAt hc, ?_⟩
      rw [hitems, cursorAfter, hpre, hlast]
      rfl
    case isFalse hroom' =>
      have hroom' := Nat.le_of_not_lt hroom'
      have hkept := hof'.kept_eq hroom'
      split
      case isTrue hcut =>
        have hne : visible ≠ [] := hvisible ▸ visibleOf_ne_nil hbudget (hvisible ▸ hcut)
        obtain ⟨c, hc⟩ := Option.isSome_iff_exists.mp (List.getLast?_isSome.mpr hne)
        have hc' : (seen ++ visible).getLast? = some c := by
          rw [List.getLast?_append, hc, Option.some_or]
        refine ⟨⟨seen ++ visible, some c⟩, looked'.asked, hnext.cutAt hc', ?_⟩
        rw [cursorAfter, hc, hkept]
        rfl
      case isFalse hwhole =>
        obtain rfl : unseen = [] := by
          rw [← hunseen, List.length_append] at hwhole
          exact List.eq_nil_of_length_eq_zero (by omega)
        rw [List.append_nil] at hnext
        cases hnextCursor : page.nextCursor with
        | none =>
          rw [hnextCursor] at hnext
          refine ⟨⟨seen ++ visible, none⟩, looked'.asked, hnext, ?_⟩
          rw [hkept]
          rfl
        | some c =>
          rw [hnextCursor] at hnext
          simp only [Option.map_some]
          split
          case isTrue =>
            refine ⟨⟨seen ++ visible, some c⟩, looked'.asked, hnext, ?_⟩
            rw [hkept]
            rfl
          case isFalse hspent =>
            have hbudget' : ∀ n ∈ predicate.scanLimit, looked'.scanned < n := fun n hn => by
              simpa [Option.mem_def.mp hn] using hspent
            have hless := hpage.countP_lt hnextCursor hall
            exact ih (Or.inr ⟨c, rfl, hnext⟩) hof' hroom' hbudget' (by omega)

/-- **Whatever is read and answered, a scan keeps within the page and the budget.** -/
theorem scanHolders_within {fuel : ℕ} {looked : Looked} {cursor : Option Str} {answer : Answer}
    (h : scanHolders read limit predicate fuel looked cursor = .ok answer)
    (hscanned : looked.scanned = looked.asked.flatten.length)
    (hbudget : ∀ n ∈ predicate.scanLimit, looked.scanned < n) :
    answer.page.items.length ≤ limit ∧
      ∀ n ∈ predicate.scanLimit, answer.asked.flatten.length ≤ n := by
  induction fuel generalizing looked cursor with
  | zero => cases h
  | succ fuel ih =>
    rw [scanHolders] at h
    obtain ⟨page, -, h⟩ := Except.bind_ok.mp h
    obtain ⟨looked', hjudged, h⟩ := Except.bind_ok.mp h
    obtain ⟨hasked, hle⟩ := judgeEach_asked hjudged hscanned
    rw [flatten_batches] at hle
    have hwithin : ∀ n ∈ predicate.scanLimit, looked'.asked.flatten.length ≤ n := fun n hn =>
      hasked ▸ hle.trans (length_visibleOf hbudget page.items n hn)
    split at h
    case isTrue =>
      obtain ⟨c, -, h⟩ := Except.bind_ok.mp h
      obtain rfl := Except.pure_ok.mp h
      exact ⟨List.length_take_le .., hwithin⟩
    case isFalse hroom =>
      have hroom := Nat.le_of_not_lt hroom
      split at h
      case isTrue =>
        obtain ⟨c, -, h⟩ := Except.bind_ok.mp h
        obtain rfl := Except.pure_ok.mp h
        exact ⟨hroom, hwithin⟩
      case isFalse =>
        split at h
        · obtain rfl := Except.pure_ok.mp h
          exact ⟨hroom, hwithin⟩
        · split at h
          case isTrue =>
            obtain rfl := Except.pure_ok.mp h
            exact ⟨hroom, hwithin⟩
          case isFalse hspent =>
            refine ih h hasked fun n hn => ?_
            simpa [Option.mem_def.mp hn] using hspent

end Scan

/-! ## From page to page -/

variable (lower) in
/-- Whether a text, if any, is found in a holder's id; no id a store keeps holds a text it could not
keep. -/
def searched (text : Option Str) (holder : Entity) : Bool :=
  text.all fun text => text = [] || isStorable text && idMatches lower holder.id text

/-- A holder a cursor can follow. -/
structure Entity.Followable (e : Entity) : Prop where
  type : isName e.type = true
  short : e.type.length < 10 ^ 9
  id : isStorable e.id = true

/-- A store may be asked past a holder it keeps. -/
theorem isStorable_holderCursor {e : Entity} (htype : isName e.type = true)
    (hid : isStorable e.id = true) : isStorable (holderCursor e) = true := by
  obtain ⟨hnul, hformed⟩ := Bool.and_eq_true_iff.mp hid
  have hascii : ∀ u ∈ decimal e.type.length ++ (58 : CodeUnit) :: e.type, 48 ≤ u.val ∧
    u.val ≤ 122 := by
    intro u hu
    rw [List.mem_append, List.mem_cons] at hu
    rcases hu with hu | rfl | hu
    · have := mem_decimal hu
      omega
    · decide
    · have := isName_mem htype hu
      simp only [Bool.or_eq_true, Bool.and_eq_true, decide_eq_true_eq] at this
      omega
  have hsplit : holderCursor e = (decimal e.type.length ++ (58 : CodeUnit) :: e.type) ++ e.id := by
    simp [holderCursor]
  rw [isStorable, hsplit, Bool.and_eq_true]
  refine ⟨?_, isWellFormed_append (isWellFormed_of_forall fun u hu => ?_) hformed⟩
  · rw [Bool.not_eq_true', List.contains_eq_mem, decide_eq_false_iff_not] at hnul ⊢
    rw [List.mem_append, not_or]
    exact ⟨fun hu => absurd (hascii _ hu).1 (by decide), hnul⟩
  · have := (hascii u hu).2
    omega

/-- **A store that keeps exactly `stored`** as the holders of a relation: it lists each once, and if
it pages them itself, answers pages of them, no longer than asked. -/
structure HolderStore.KeepsHolders (store : HolderStore) (lower : Str → Str) (object : Entity)
    (relation : Str) (stored : List Entity) : Prop where
  findEntities : ∃ all, store.findEntities object relation = .ok all ∧ all.Nodup ∧
    ∀ e, e ∈ all ↔ e ∈ stored
  findHolders : ∀ find ∈ store.findHolders, ∀ search,
    ReadsPages (fun cursor limit => find ⟨object, relation, cursor, limit, search⟩)
      fun e => e ∈ stored ∧ matches_ lower search e = true
  limited : ∀ find ∈ store.findHolders, ∀ request page, find request = .ok page →
    page.items.length ≤ request.limit

section Listing

variable {store : HolderStore} {object : Entity} {relation : Str} {stored : List Entity}

theorem HolderStore.KeepsHolders.reads (h : store.KeepsHolders lower object relation stored)
    (hstored : ∀ e ∈ stored, e.Followable) (search : Option Str) (where_ : Str) :
    ReadsPages (store.read lower object relation search where_)
      fun e => e ∈ stored ∧ matches_ lower search e = true := by
  intro after limit hlimit hafter
  cases hfind : store.findHolders with
  | some find =>
    simp only [HolderStore.read, hfind]
    exact h.findHolders find hfind search after limit hlimit hafter
  | none =>
    obtain ⟨all, hall, hnodup, hmem⟩ := h.findEntities
    refine ⟨holdersPast lower all search limit after, ?_, ?_⟩
    · simp only [HolderStore.read, hfind, hall, Except.ok_bind]
      exact pageOfHolders_eq fun e he => (hstored e (hafter e he).1).short
    · simpa only [hmem] using holdersPast_isPage hnodup hlimit after

/-- **A page is asked for as `text` and `p` say**: a predicate given either way or none that would
drop a holder, and any limits the call accepts. -/
structure HoldersPage.Asks (options : HoldersPage) (text : Option Str) (p : Entity → Bool) :
    Prop where
  first : options.first = .undefined ∨ ∃ n ≥ 1, options.first = .integer n
  search : options.search = text.elim .undefined .str
  scanLimit : options.scanLimit = .absent ∨ options.scanLimit = .infinity ∨
    ∃ n, 1 ≤ n ∧ n ≤ 2 ^ 53 - 1 ∧ options.scanLimit = .integer n
  predicate :
    options.matches_ = .function (fun e => .ok (p e)) ∧ options.matchesMany = .undefined ∨
    options.matches_ = .undefined ∧
      options.matchesMany = .function (fun batch => .ok (some (batch.map p))) ∨
    options.matches_ = .undefined ∧ options.matchesMany = .undefined ∧ ∀ e, p e = true

variable {options : HoldersPage} {text : Option Str} {p : Entity → Bool}

theorem HoldersPage.Asks.pageLimit_ok (h : options.Asks text p) (where_ : Str) :
    ∃ limit, pageLimit options.first where_ = .ok limit ∧ 0 < limit := by
  rcases h.first with hfirst | ⟨n, hn, hfirst⟩
  · exact ⟨DEFAULT_PAGE_SIZE, by rw [hfirst]; rfl, by decide⟩
  · refine ⟨min n.toNat MAX_PAGE_SIZE, ?_, lt_min (by omega) (by decide)⟩
    rw [hfirst, pageLimit, if_pos hn]
    rfl

theorem HoldersPage.Asks.scanLimit_ok (h : options.Asks text p) (where_ : Str) :
    ∃ budget, scanLimitOf options.scanLimit where_ = .ok budget ∧ ∀ n ∈ budget, 0 < n := by
  rcases h.scanLimit with hscan | hscan | ⟨n, hn, hsafe, hscan⟩
  · exact ⟨some DEFAULT_SCAN_LIMIT, by rw [hscan]; rfl, by simp [DEFAULT_SCAN_LIMIT]⟩
  · exact ⟨none, by rw [hscan]; rfl, nofun⟩
  · refine ⟨some n.toNat, ?_, fun m hm => ?_⟩
    · rw [hscan, scanLimitOf, if_pos ⟨hn, hsafe⟩]
      rfl
    · obtain rfl := Option.some.inj hm
      omega

theorem judges_judgeOne (p : Entity → Bool) (scanLimit : Option ℕ) :
    Predicate.Judges ⟨judgeOne fun e => .ok (p e), 1, scanLimit⟩ p := by
  intro holders batch hbatch
  obtain ⟨holder, rfl⟩ := eq_singleton_of_mem_batches hbatch
  rfl

theorem judges_judgeMany (p : Entity → Bool) (where_ : Str) (scanLimit : Option ℕ) :
    Predicate.Judges ⟨judgeMany where_ fun batch => .ok (some (batch.map p)),
    MAX_PAGE_SIZE, scanLimit⟩
      p := by
  intro holders batch _
  simp [judgeMany]

theorem HoldersPage.Asks.predicate_ok (h : options.Asks text p) (where_ : Str) :
    ∃ predicate, checkedPredicate where_ options = .ok predicate ∧
      (predicate = none → ∀ e, p e = true) ∧
      ∀ asked ∈ predicate, asked.Judges p ∧ ∀ n ∈ asked.scanLimit, 0 < n := by
  obtain ⟨budget, hbudget, hpos⟩ := h.scanLimit_ok where_
  rcases h.predicate with ⟨hone, hmany⟩ | ⟨hone, hmany⟩ | ⟨hone, hmany, hp⟩
  · refine ⟨some ⟨judgeOne fun e => .ok (p e), 1, budget⟩, ?_, nofun, ?_⟩
    · rw [checkedPredicate, hone, hmany]
      simp only [hbudget, Except.ok_bind]
      rfl
    · rintro _ ⟨⟩
      exact ⟨judges_judgeOne p budget, hpos⟩
  · refine ⟨some ⟨judgeMany where_ fun batch => .ok (some (batch.map p)), MAX_PAGE_SIZE, budget⟩, ?_,
      nofun, ?_⟩
    · rw [checkedPredicate, hone, hmany]
      simp only [hbudget, Except.ok_bind]
      rfl
    · rintro _ ⟨⟩
      exact ⟨judges_judgeMany p where_ budget, hpos⟩
  · refine ⟨none, ?_, fun _ => hp, nofun⟩
    rw [checkedPredicate, hone, hmany]
    simp only [hbudget, Except.ok_bind]
    rfl

/-- A search no store could keep keeps no holder; any other, what the store's search keeps. -/
theorem searched_eq (text : Option Str) (holder : Entity) :
    searched lower text holder =
      if (text.filter fun text => text ≠ []).any fun search => !isStorable search then false
      else matches_ lower (text.filter fun text => text ≠ []) holder := by
  cases text with
  | none => rfl
  | some text =>
    by_cases hnil : text = []
    · simp [searched, matches_, hnil]
    · cases hstorable : isStorable text <;> simp [searched, matches_, hnil, hstorable]

variable {model : ResolvedModel Ctx} {arg : Arg} {target : TargetOf Ctx}

/-- A call whose options are accepted: no page where no store could be asked, else one read, or one
scanned for. -/
theorem pageAfter_eq (htarget : targetOf model arg relation (js "holders") = .ok target) {limit : ℕ}
    (hlimit : pageLimit options.first (js "holders") = .ok limit)
    (hsearch : options.search = text.elim .undefined .str) {predicate : Option Predicate}
    (hpredicate : checkedPredicate (js "holders") options = .ok predicate) {cursor : Option Str}
    (hcursor : ∀ c ∈ cursor, isStorable c = true) (fuel : ℕ) :
    pageAfter lower model store fuel arg relation options cursor =
      if (text.filter fun text => text ≠ []).any fun search =>
      !isStorable search then .ok ⟨[], none⟩
      else
        let read := store.read lower target.entity relation (text.filter fun text => text ≠ [])
          (js "holders")
        match predicate with
        | none => read cursor limit
        | some predicate =>
          (scanHolders read limit predicate fuel ⟨[], 0, []⟩ cursor).map (·.page) := by
  have hafterOf : afterOf (cursor.elim .null .str) (js "holders") = .ok cursor := by
    cases cursor <;> rfl
  have hsearchOf : searchOf options.search (js "holders") = .ok text := by
    rw [hsearch]
    cases text <;> rfl
  have hchecked : checkedPredicate (js "holders")
      { options with after := cursor.elim .null .str } = .ok predicate := hpredicate
  have hstorable : cursor.filter (fun cursor => !isStorable cursor) = none := by
    cases cursor with
    | none => rfl
    | some c => simp [hcursor c rfl]
  rw [pageAfter, holders]
  simp only [hlimit, hafterOf, hsearchOf, hchecked, htarget, hstorable, Except.ok_bind]
  split
  · rfl
  · cases predicate with
    | some predicate => rfl
    | none =>
      generalize HolderStore.read .. = read
      cases read <;> rfl

/-- **One page of `holders()` is what the predicate keeps of a page** of the holders stored. -/
theorem holders_page (htarget : targetOf model arg relation (js "holders") = .ok target)
    (hstore : store.KeepsHolders lower target.entity relation stored)
    (hstored : ∀ e ∈ stored, e.Followable) (hasks : options.Asks text p) {fuel : ℕ}
    (hfuel : stored.length < fuel) {after : Option Entity}
    (hafter : ∀ c ∈ after, c ∈ stored ∧ searched lower text c = true) : ∃ page : Page Entity,
      IsPage (fun e => e ∈ stored ∧ searched lower text e = true) after page ∧
      pageAfter lower model store fuel arg relation options (after.map holderCursor) =
        .ok ⟨page.items.filter p, page.nextCursor.map holderCursor⟩ := by
  obtain ⟨limit, hlimit, hpos⟩ := hasks.pageLimit_ok (js "holders")
  obtain ⟨predicate, hpredicate, hnone, hsome⟩ := hasks.predicate_ok (js "holders")
  have hcursor : ∀ cursor ∈ after.map holderCursor, isStorable cursor = true := by
    intro cursor hcursor
    obtain ⟨c, hc, rfl⟩ := Option.mem_map.mp hcursor
    have hfollow := hstored c (hafter c hc).1
    exact isStorable_holderCursor hfollow.type hfollow.id
  have hkeeps := @searched_eq lower text
  rw [pageAfter_eq htarget hlimit hasks.search hpredicate hcursor]
  split
  case isTrue hunstorable =>
    simp only [if_pos hunstorable] at hkeeps
    exact ⟨⟨[], none⟩, ⟨.nil, by simp [hkeeps], nofun⟩, rfl⟩
  case isFalse hstorable =>
    simp only [if_neg hstorable] at hkeeps
    simp only [hkeeps] at hafter ⊢
    have hreads := hstore.reads hstored (text.filter fun text => text ≠ []) (js "holders")
    cases predicate with
    | none =>
      obtain ⟨page, hok, hpage⟩ := hreads after limit hpos hafter
      refine ⟨page, hpage, ?_⟩
      rw [List.filter_eq_self.mpr fun e _ => hnone rfl e]
      exact hok
    | some predicate =>
      obtain ⟨hjudges, hbudget⟩ := hsome predicate rfl
      obtain ⟨page, asked, hpage, hok⟩ := scanHolders_ok hreads hjudges hpos
        (fun e he => he.1) hafter
        (Or.inl ⟨rfl, rfl⟩) (rfl : Looked.Of ⟨[], 0, []⟩ p limit []) (Nat.zero_le _) hbudget
        (lt_of_le_of_lt List.countP_le_length hfuel)
      refine ⟨page, hpage, ?_⟩
      simp only [hok]
      rfl

theorem pageLimit_le {n : ℤ} {where_ : Str} {limit : ℕ}
    (h : pageLimit (.integer n) where_ = .ok limit) :
    (limit : ℤ) ≤ n := by
  rw [pageLimit] at h
  split at h
  case isTrue hn =>
    obtain rfl := Except.pure_ok.mp h
    omega
  case isFalse => cases h

theorem scanLimitOf_integer {n : ℤ} {where_ : Str} {budget : Option ℕ}
    (h : scanLimitOf (.integer n) where_ = .ok budget) : 1 ≤ n ∧ budget = some n.toNat := by
  rw [scanLimitOf] at h
  split at h
  case isTrue hn => exact ⟨hn.1, (Except.pure_ok.mp h).symm⟩
  case isFalse => cases h

theorem scanLimitOf_pos {scanLimit : ScanLimitArg} {where_ : Str} {budget : Option ℕ}
    (h : scanLimitOf scanLimit where_ = .ok budget) : ∀ n ∈ budget, 0 < n := by
  rintro n rfl
  cases scanLimit with
  | absent =>
    cases h
    decide
  | infinity => cases h
  | other => cases h
  | integer m =>
    obtain ⟨hm, heq⟩ := scanLimitOf_integer h
    cases heq
    omega

/-- A call's budget is checked with a predicate or without, and is its predicate's. -/
theorem checkedPredicate_ok {where_ : Str} {predicate : Option Predicate}
    (h : checkedPredicate where_ options = .ok predicate) :
    ∃ budget, scanLimitOf options.scanLimit where_ = .ok budget ∧
      ∀ asked ∈ predicate, asked.scanLimit = budget := by
  rw [checkedPredicate] at h
  split at h
  case h_1 | h_2 | h_3 => cases h
  all_goals
    obtain ⟨budget, hbudget, h⟩ := Except.bind_ok.mp h
    obtain rfl := Except.pure_ok.mp h
    exact ⟨budget, hbudget, by simp⟩

theorem length_pageOfHolders {all : List Entity} {cursor search : Option Str} {limit : ℕ}
    {where_ : Str}
    {page : CursorPage Entity Str} (h : pageOfHolders lower all cursor limit search where_ = .ok page) :
    page.items.length ≤ limit := by
  cases cursor with
  | none =>
    obtain rfl := Except.pure_ok.mp h
    exact List.length_take_le ..
  | some cursor =>
    obtain ⟨from_, -, h⟩ := Except.bind_ok.mp h
    obtain rfl := Except.pure_ok.mp h
    exact List.length_take_le ..

/-- **No call answers more than `first` holders, nor asks its predicate about more than
`scanLimit`**, whatever the cursor and whatever the predicate answers. -/
theorem holders_within {fuel : ℕ} {answer : Answer}
    (hlimited : ∀ find ∈ store.findHolders, ∀ request page, find request = .ok page →
      page.items.length ≤ request.limit)
    (h : holders lower model store fuel arg relation options = .ok answer) :
    (∀ n : ℤ, options.first = .integer n → answer.page.items.length ≤ n) ∧
      ∀ n : ℤ, options.scanLimit = .integer n → answer.asked.flatten.length ≤ n := by
  obtain ⟨limit, hlimit, h⟩ := Except.bind_ok.mp h
  obtain ⟨after, -, h⟩ := Except.bind_ok.mp h
  obtain ⟨text, -, h⟩ := Except.bind_ok.mp h
  obtain ⟨predicate, hpredicate, h⟩ := Except.bind_ok.mp h
  obtain ⟨target, -, h⟩ := Except.bind_ok.mp h
  obtain ⟨budget, hbudget, hasked⟩ := checkedPredicate_ok hpredicate
  suffices hwithin : answer.page.items.length ≤ limit ∧
      ∀ n ∈ budget, answer.asked.flatten.length ≤ n by
    refine ⟨fun n hn => ?_, fun n hn => ?_⟩
    · rw [hn] at hlimit
      exact (Int.ofNat_le.mpr hwithin.1).trans (pageLimit_le hlimit)
    · rw [hn] at hbudget
      obtain ⟨hpos, rfl⟩ := scanLimitOf_integer hbudget
      have := hwithin.2 _ rfl
      omega
  dsimp only at h
  split at h
  case isTrue =>
    obtain rfl := Except.pure_ok.mp h
    simp
  case isFalse =>
    split at h
    case h_1 => cases h
    case h_2 =>
      cases predicate with
      | none =>
        obtain ⟨page, hpage, h⟩ := Except.bind_ok.mp h
        obtain rfl := Except.pure_ok.mp h
        refine ⟨?_, by simp⟩
        cases hfind : store.findHolders with
        | some find =>
          simp only [HolderStore.read, hfind] at hpage
          exact hlimited find hfind _ _ hpage
        | none =>
          simp only [HolderStore.read, hfind] at hpage
          obtain ⟨all, -, hpage⟩ := Except.bind_ok.mp hpage
          exact length_pageOfHolders hpage
      | some predicate =>
        obtain rfl := hasked predicate rfl
        exact scanHolders_within h rfl (scanLimitOf_pos hbudget)

/-- **Pages of `holders()` are a lossless scan**: following each page's cursor ends, and yields
exactly the holders that match, each once, by type and then by id — however each call was limited,
and whoever pages; and no call answers or asks more than it may. -/
theorem holders_lossless (htarget : targetOf model arg relation (js "holders") = .ok target)
    (hstore : store.KeepsHolders lower target.entity relation stored)
    (hstored : ∀ e ∈ stored, e.Followable) {options : ℕ → HoldersPage}
    (hasks : ∀ n, (options n).Asks text p) {fuel : ℕ} (hfuel : stored.length < fuel) :
    (∃ items, drainEach (fun n => pageAfter lower model store fuel arg relation (options n)) .outOfFuel
          fuel 0 none = .ok items ∧
        items.Pairwise (· < ·) ∧
        ∀ e, e ∈ items ↔ (e ∈ stored ∧ searched lower text e = true) ∧ p e = true) ∧
      ∀ n after fuel answer,
        holders lower model store fuel arg relation { options n with after } = .ok answer →
        (∀ first : ℤ, (options n).first = .integer first → answer.page.items.length ≤ first) ∧
        ∀ scanLimit : ℤ, (options n).scanLimit = .integer scanLimit →
          answer.asked.flatten.length ≤ scanLimit := by
  constructor
  · have hfirst : ∀ c ∈ (none : Option Entity), c ∈ stored ∧ searched lower text c = true := by simp
    obtain ⟨items, hitems, hascending, hmem⟩ := drainEach_ok (n := 0)
      (fun n after hafter => holders_page htarget hstore hstored (hasks n) hfuel hafter)
      (fun e he => he.1) hfirst (lt_of_le_of_lt List.countP_le_length hfuel)
    exact ⟨items, hitems, hascending, by simpa using hmem⟩
  · intro n after fuel answer hanswer
    have hwithin := holders_within hstore.limited hanswer
    exact hwithin

end Listing

/-! ## Over the store in memory -/

/-- The store in memory, as it pages its holders or as the call does. -/
def MemoryRelations.holderStore (lower : Str → Str) (memory : MemoryRelations) (paged : Bool) :
    HolderStore where
  findEntities object relation := .ok (memory.findEntities object relation)
  findHolders := if paged then some (memory.findHolders lower) else none

theorem Represents.keepsHolders {memory : MemoryRelations} {tuples : Set RelationTuple}
    (h : Represents memory tuples) (paged : Bool) {object : Entity} {relation : Str}
    (hshort : ∀ e ∈ memory.findEntities object relation, e.Followable) :
    (memory.holderStore lower paged).KeepsHolders lower object relation
      (memory.findEntities object relation) where
  findEntities := ⟨_, rfl, h.nodup_findEntities .., fun _ => Iff.rfl⟩
  findHolders := by
    cases paged with
    | false => nofun
    | true =>
      rintro _ ⟨⟩ search after limit hlimit hafter
      exact ⟨_, pageOfHolders_eq fun e he => (hshort e (hafter e he).1).short,
        Permissions.holdersPast_isPage (h.nodup_findEntities ..) hlimit after⟩
  limited := by
    cases paged with
    | false => nofun
    | true =>
      rintro _ ⟨⟩ request page hpage
      exact length_pageOfHolders hpage

/-- The viewers `u2` among two, one to a page, asked one call after another for one and for many,
and the budget spent after one holder on each second call. -/
def alternating (n : ℕ) : HoldersPage :=
  let second (e : Entity) : Bool := e.id = js "u2"
  if n % 2 = 0 then
    ⟨.undefined, .integer 1, .str (js "u"), .function fun e => .ok (second e),
    .undefined, .infinity⟩
  else
    ⟨.undefined, .integer 3, .str (js "u"), .undefined,
      .function fun batch => .ok (some (batch.map second)), .integer 1⟩

theorem asks_alternating (n : ℕ) :
    (alternating n).Asks (some (js "u")) fun e => e.id = js "u2" := by
  rw [alternating]
  split
  · exact ⟨Or.inr ⟨1, by decide, rfl⟩, rfl, Or.inr (Or.inl rfl), Or.inl ⟨rfl, rfl⟩⟩
  · exact ⟨Or.inr ⟨3, by decide, rfl⟩, rfl, Or.inr (Or.inr ⟨1, by decide, by decide, rfl⟩),
      Or.inr (Or.inl ⟨rfl, rfl⟩)⟩

theorem holders_lossless_alternating :
    ∃ items, drainEach (fun n => pageAfter id (viewers (js "staff") (by decide))
          ((memoryAfter (twoViews (js "staff"))).holderStore id false) 3 doc (js "viewer")
          (alternating n)) .outOfFuel 3 0 none = .ok items ∧
      items.Pairwise (· < ·) ∧
      ∀ e, e ∈ items ↔ (e ∈ [⟨js "staff", js "u1"⟩, ⟨js "staff", js "u2"⟩] ∧
        searched id (some (js "u")) e = true) ∧ decide (e.id = js "u2") = true := by
  have hstored : ∀ e ∈ [⟨js "staff", js "u1"⟩, ⟨js "staff", js "u2"⟩], Entity.Followable e := by
    simp only [List.forall_mem_cons]
    exact ⟨⟨by decide, by decide, by decide⟩, ⟨by decide, by decide, by decide⟩, nofun⟩
  have hfound := @findEntities_twoViews (js "staff") (by decide)
  have hkeeps : ((memoryAfter (twoViews (js "staff"))).holderStore id false).KeepsHolders id
      ⟨js "doc", js "d1"⟩ (js "viewer") _ :=
    (represents_after (@admitted_twoViews (js "staff") (by decide))).keepsHolders false
      (hfound ▸ hstored)
  rw [hfound] at hkeeps
  exact (holders_lossless (targetOf_viewers (by decide) _) hkeeps hstored asks_alternating
    (by decide)).1

/-! ### Holders no page lists -/

/-- The viewers of a `doc`, as the store in memory pages them. -/
def pageOfViewers {type : Str} (h : isName type = true) (changes : List Change)
    (options : HoldersPage)
    (after : Option Str) : Except Failure (CursorPage Entity Str) :=
  pageAfter id (viewers type h) ((memoryAfter changes).holderStore id true) 3 doc
    (js "viewer") options
    after

/-- One holder to a page, with a search and no predicate. -/
def oneEach (search : Value) : HoldersPage :=
  ⟨.undefined, .integer 1, search, .undefined, .undefined, .absent⟩

theorem pageOfViewers_eq {type : Str} (h : isName type = true) (changes : List Change)
    {after : Option Str} (hafter : ∀ cursor ∈ after, isStorable cursor = true) :
    pageOfViewers h changes (oneEach .undefined) after = viewersOf (memoryAfter changes) after := by
  have hlimit : pageLimit (oneEach .undefined).first (js "holders") = .ok 1 := rfl
  have hsearch : (oneEach .undefined).search = (none : Option Str).elim .undefined .str := rfl
  have hchecked : checkedPredicate (js "holders") (oneEach .undefined) = .ok none := rfl
  exact pageAfter_eq (targetOf_viewers h _) hlimit hsearch hchecked hafter 3

theorem drain_pageOfViewers {type : Str} (h : isName type = true) (hlong : 10 ^ 9 ≤ type.length)
    (fuel : ℕ) (items : List Entity) :
    drainEach (fun _ => pageOfViewers h (twoViews type) (oneEach .undefined)) .outOfFuel
      fuel 0 none ≠
      .ok items := by
  have hstorable : ∀ cursor ∈ some (holderCursor ⟨type, js "u1"⟩), isStorable cursor = true := by
    rintro _ ⟨⟩
    exact isStorable_holderCursor h (by decide : isStorable (js "u1") = true)
  cases fuel with
  | zero => rintro ⟨⟩
  | succ fuel =>
    rw [drainEach, pageOfViewers_eq h _ (by simp), viewersOf_first h]
    cases fuel with
    | zero => rintro ⟨⟩
    | succ fuel =>
      simp only [Except.ok_bind]
      rw [drainEach, pageOfViewers_eq h _ hstorable, viewersOf_past hlong]
      rintro ⟨⟩

/-- A face, two halves of a pair. -/
def face : Str := [0xD83D, 0xDE00]

/-- A user with a face for an id views the `doc`. -/
def facing : List Change := [.write [view (js "staff") face] []]

/-- A type of a thousand million letters. -/
def longType : Str := List.replicate (10 ^ 9) 97

theorem isName_longType : isName longType = true := isName_replicate (Nat.pow_pos (Nat.succ_pos 9))

/-- Half of a pair is found in an id and no page lists it; past a holder of too long a type no page
is answered; and not every positive integer is a budget. -/
theorem holders_lossy :
    ((∀ change ∈ facing, ∀ t ∈ change.tuples, Admitted t) ∧
      ⟨js "staff", face⟩ ∈ (memoryAfter facing).findEntities ⟨js "doc", js "d1"⟩ (js "viewer") ∧
      idMatches id face [0xD83D] = true ∧
      drainEach (fun _ => pageOfViewers (by decide : isName (js "staff") = true) facing
        (oneEach (.str [0xD83D]))) .outOfFuel 3 0 none = .ok []) ∧
    ((∀ change ∈ twoViews longType, ∀ t ∈ change.tuples, Admitted t) ∧
      ∀ fuel items, drainEach (fun _ => pageOfViewers isName_longType (twoViews longType)
        (oneEach .undefined)) .outOfFuel fuel 0 none ≠ .ok items) ∧
    pageOfViewers (by decide : isName (js "staff") = true) facing
        { oneEach .undefined with
          matches_ := .function fun _ => .ok true
          scanLimit := .integer (2 ^ 53) } none =
      .error (.typeError (js "holders: scanLimit must be a positive integer, or Infinity")) := by
  refine ⟨⟨?_, by decide, by decide, rfl⟩, ⟨admitted_twoViews isName_longType, ?_⟩, rfl⟩
  · intro change hchange t ht
    obtain rfl := List.mem_singleton.mp hchange
    obtain rfl := List.mem_singleton.mp ht
    exact admitted_view (by decide) (by decide) (by decide)
  · exact drain_pageOfViewers isName_longType (List.length_replicate ..).ge

end Janus.Permissions
