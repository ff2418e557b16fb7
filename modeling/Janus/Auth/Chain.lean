import Janus.Auth.Window
import Mathlib.Algebra.BigOperators.Group.Finset.Basic
import Mathlib.Data.Nat.Find
import Mathlib.Order.Interval.Finset.Nat

/-!
# Auth/Chain — what the links of a window keep

A link is stored only once the one before it is spent, and a spent link never changes again.  So the
links stored are a prefix of the chain, all spent but the last (`Chain`), and the attempts of a
spent link are what they will always be (`Kept`).
-/

namespace Janus.Auth

open Js Insertion

/-- A token of this hash is stored and spent. -/
def IsSpent (tokens : List (Str × TokenRecord)) (hash : Str) : Prop :=
  ∃ t, get tokens hash = some t ∧ t.spentAt ≠ none

/-- The attempts counted on a token, stored or not. -/
def attemptsAt (tokens : List (Str × TokenRecord)) (hash : Str) : ℕ :=
  (get tokens hash).elim 0 TokenRecord.attempts

/-- What every call leaves of the tokens: one stored stays its user's, and one spent never changes.
-/
def Kept (tokens tokens' : List (Str × TokenRecord)) : Prop :=
  ∀ hash t, get tokens hash = some t →
    ∃ t', get tokens' hash = some t' ∧ (t'.kind = t.kind ∧ t'.userId = t.userId) ∧
      (t.spentAt ≠ none → t' = t)

section Kept

variable {tokens tokens' : List (Str × TokenRecord)} {hash : Str}

theorem Kept.refl (tokens : List (Str × TokenRecord)) : Kept tokens tokens :=
  fun _ t h => ⟨t, h, ⟨rfl, rfl⟩, fun _ => rfl⟩

theorem Kept.of_map {write : Str → TokenRecord → TokenRecord}
    (h : ∀ hash, get tokens' hash = (get tokens hash).map (write hash))
    (hkind : ∀ hash t, (write hash t).kind = t.kind ∧ (write hash t).userId = t.userId)
    (hspent : ∀ hash t, t.spentAt ≠ none → write hash t = t) : Kept tokens tokens' := by
  intro hash t ht
  exact ⟨write hash t, by rw [h, ht, Option.map_some], hkind hash t, hspent hash t⟩

theorem Kept.isSpent (h : Kept tokens tokens') (hs : IsSpent tokens hash) :
    IsSpent tokens' hash := by
  obtain ⟨t, ht, hspent⟩ := hs
  obtain ⟨t', ht', _, heq⟩ := h hash t ht
  exact ⟨t', ht', heq hspent ▸ hspent⟩

theorem Kept.attemptsAt (h : Kept tokens tokens') (hs : IsSpent tokens hash) :
    attemptsAt tokens' hash = attemptsAt tokens hash := by
  obtain ⟨t, ht, hspent⟩ := hs
  obtain ⟨t', ht', _, heq⟩ := h hash t ht
  rw [Auth.attemptsAt, Auth.attemptsAt, ht', ht, heq hspent]

end Kept

/-! ## What each call does -/

section Calls

variable {tokens : List (Str × TokenRecord)}

@[simp] theorem spent_kind (at_ : Time) (t : TokenRecord) : (t.spent at_).kind = t.kind := by
  rw [TokenRecord.spent]
  split <;> rfl

@[simp] theorem spent_userId (at_ : Time) (t : TokenRecord) : (t.spent at_).userId = t.userId := by
  rw [TokenRecord.spent]
  split <;> rfl

@[simp] theorem spent_attempts (at_ : Time) (t : TokenRecord) :
    (t.spent at_).attempts = t.attempts := by
  rw [TokenRecord.spent]
  split <;> rfl

@[simp] theorem counted_kind (t : TokenRecord) : t.counted.kind = t.kind := by
  rw [TokenRecord.counted]
  split <;> rfl

@[simp] theorem counted_userId (t : TokenRecord) : t.counted.userId = t.userId := by
  rw [TokenRecord.counted]
  split <;> rfl

@[simp] theorem counted_spentAt (t : TokenRecord) : t.counted.spentAt = t.spentAt := by
  rw [TokenRecord.counted]
  split <;> rfl

theorem spent_of_spent {at_ : Time} {t : TokenRecord} (h : t.spentAt ≠ none) : t.spent at_ = t :=
  if_neg h

theorem counted_of_spent {t : TokenRecord} (h : t.spentAt ≠ none) : t.counted = t := if_neg h

theorem counted_of_unspent {t : TokenRecord} (h : t.spentAt = none) :
    t.counted.attempts = t.attempts + 1 := by
  rw [TokenRecord.counted, if_pos h]

theorem kept_insertToken (record : TokenRecord) : Kept tokens (insertToken tokens record) := by
  intro hash t ht
  refine ⟨t, ?_, ⟨rfl, rfl⟩, fun _ => rfl⟩
  rw [get_insertToken, ht, Option.getD_some, ite_self]

theorem kept_consumeToken (tokenHash : Str) (kind : TokenKind) (at_ : Time) :
    Kept tokens (consumeToken tokens tokenHash kind at_).2 := by
  refine Kept.of_map (get_writeToken tokenHash kind _) (fun hash t => ?_) (fun hash t h => ?_)
  · split
    · exact ⟨spent_kind at_ t, spent_userId at_ t⟩
    · exact ⟨rfl, rfl⟩
  · rw [spent_of_spent h, ite_self]

theorem kept_countAttempt (tokenHash : Str) (kind : TokenKind) :
    Kept tokens (countAttempt tokens tokenHash kind).2 := by
  refine Kept.of_map (get_writeToken tokenHash kind _) (fun hash t => ?_) (fun hash t h => ?_)
  · split
    · exact ⟨counted_kind t, counted_userId t⟩
    · exact ⟨rfl, rfl⟩
  · rw [counted_of_spent h, ite_self]

theorem kept_spendUserTokens (userId : Str) (kind : TokenKind) (at_ : Time) (except : Option Str) :
    Kept tokens (spendUserTokens tokens userId kind at_ except).2 := by
  refine Kept.of_map (get_spendUserTokens userId kind at_ except) (fun hash t => ?_)
    (fun hash t h => ?_)
  · split
    · exact ⟨spent_kind at_ t, spent_userId at_ t⟩
    · exact ⟨rfl, rfl⟩
  · rw [spent_of_spent h, ite_self]

/-- No call forgets a token, or what a spent one was. -/
theorem kept_exec {w w' : World} {c : Call} {r : Answer c} (h : exec c w = (r, w')) :
    Kept w.tokens w'.tokens := by
  cases c with
  | insertToken record => cases h; exact kept_insertToken record
  | consumeToken tokenHash kind at_ => cases h; exact kept_consumeToken tokenHash kind at_
  | countAttempt tokenHash kind => cases h; exact kept_countAttempt tokenHash kind
  | spendUserTokens userId kind at_ except =>
    cases h; exact kept_spendUserTokens userId kind at_ except
  | _ => cases h; exact Kept.refl _

theorem attemptsAt_map {tokens' : List (Str × TokenRecord)} {write : TokenRecord → TokenRecord}
    {hash : Str} (h : get tokens' hash = (get tokens hash).map write)
    (hwrite : ∀ t, (write t).attempts = t.attempts) :
    attemptsAt tokens' hash = attemptsAt tokens hash := by
  rw [attemptsAt, attemptsAt, h]
  cases get tokens hash with
  | none => rfl
  | some t => exact hwrite t

/-- Spending counts nothing. -/
theorem attemptsAt_consumeToken (tokenHash : Str) (kind : TokenKind) (at_ : Time) (hash : Str) :
    attemptsAt (consumeToken tokens tokenHash kind at_).2 hash = attemptsAt tokens hash := by
  refine attemptsAt_map (get_writeToken tokenHash kind _ hash) fun t => ?_
  split
  · exact spent_attempts at_ t
  · rfl

theorem attemptsAt_spendUserTokens (userId : Str) (kind : TokenKind) (at_ : Time)
    (except : Option Str) (hash : Str) :
    attemptsAt (spendUserTokens tokens userId kind at_ except).2 hash = attemptsAt tokens hash := by
  refine attemptsAt_map (get_spendUserTokens userId kind at_ except hash) fun t => ?_
  split
  · exact spent_attempts at_ t
  · rfl

/-- …and so does storing a token nobody tried. -/
theorem attemptsAt_insertToken {record : TokenRecord} (h : record.attempts = 0) (hash : Str) :
    attemptsAt (insertToken tokens record) hash = attemptsAt tokens hash := by
  rw [attemptsAt, attemptsAt, get_insertToken]
  split
  · cases get tokens hash with
    | none => exact h
    | some t => rfl
  · rfl

/-- An attempt on an unspent token is counted there. -/
theorem attemptsAt_countAttempt {tokenHash : Str} {kind : TokenKind} {t : TokenRecord}
    (ht : get tokens tokenHash = some t) (hkind : t.kind = kind) (hspent : t.spentAt = none)
    (hash : Str) :
    attemptsAt (countAttempt tokens tokenHash kind).2 hash =
      attemptsAt tokens hash + if tokenHash = hash then 1 else 0 := by
  rw [attemptsAt, attemptsAt, countAttempt, get_writeToken]
  split
  case isTrue h =>
    subst h
    simp [ht, hkind, counted_of_unspent hspent]
  case isFalse h => cases get tokens hash <;> simp [h]

/-- …and on any other, nowhere. -/
theorem countAttempt_of_spent {tokenHash : Str} {kind : TokenKind}
    (h : ∀ t, get tokens tokenHash = some t → t.kind = kind → t.spentAt ≠ none) (hash : Str) :
    get (countAttempt tokens tokenHash kind).2 hash = get tokens hash := by
  rw [countAttempt, get_writeToken]
  cases hget : get tokens hash with
  | none => rfl
  | some t =>
    rw [Option.map_some]
    split
    case isTrue heq =>
      obtain ⟨rfl, hkind⟩ := heq
      rw [counted_of_spent (h t hget hkind)]
    case isFalse => rfl

/-- An attempt is only ever counted on an unspent token. -/
theorem unspent_of_attemptsAt_ne {tokenHash hash : Str} {kind : TokenKind}
    (h : attemptsAt (countAttempt tokens tokenHash kind).2 hash ≠ attemptsAt tokens hash) :
    ∃ t, get tokens hash = some t ∧ t.spentAt = none := by
  by_contra hspent
  refine h ?_
  rw [attemptsAt, attemptsAt, countAttempt, get_writeToken]
  cases ht : get tokens hash with
  | none => rfl
  | some t => rw [Option.map_some, counted_of_spent fun hn => hspent ⟨t, ht, hn⟩, ite_self]

/-- A count answered unspent is the token as it is from then on, one attempt more. -/
theorem exec_countAttempt_unspent {w w' : World} {tokenHash : Str} {kind : TokenKind}
    {t : TokenRecord} (h : exec (.countAttempt tokenHash kind) w = (some t, w'))
    (hspent : t.spentAt = none) :
    ¬ IsSpent w.tokens tokenHash ∧ t.attempts = attemptsAt w.tokens tokenHash + 1 ∧
      get w'.tokens tokenHash = some t := by
  obtain ⟨hanswer, rfl⟩ := Prod.mk.inj h
  obtain ⟨s, hfind, rfl⟩ := Option.map_eq_some_iff.mp hanswer
  obtain ⟨hs, hkind⟩ := Option.filter_eq_some_iff.mp hfind
  rw [counted_spentAt] at hspent
  refine ⟨?_, ?_, ?_⟩
  · rintro ⟨s', hs', hne⟩
    cases hs.symm.trans hs'
    exact hne hspent
  · rw [counted_of_unspent hspent, attemptsAt, hs, Option.elim_some]
  · change get (countAttempt w.tokens tokenHash kind).2 tokenHash = _
    rw [countAttempt, get_writeToken, hs, Option.map_some, if_pos ⟨rfl, of_decide_eq_true hkind⟩]

/-- A token answered unspent was spent by this very call. -/
theorem exec_consumeToken_unspent {w w' : World} {tokenHash : Str} {kind : TokenKind} {at_ : Time}
    {t : TokenRecord} (h : exec (.consumeToken tokenHash kind at_) w = (some t, w'))
    (hspent : t.spentAt = none) : ¬ IsSpent w.tokens tokenHash ∧ IsSpent w'.tokens tokenHash := by
  obtain ⟨hanswer, rfl⟩ := Prod.mk.inj h
  obtain ⟨ht, hkind⟩ := Option.filter_eq_some_iff.mp hanswer
  refine ⟨?_, t.spent at_, ?_, ?_⟩
  · rintro ⟨s, hs, hne⟩
    cases ht.symm.trans hs
    exact hne hspent
  · change get (consumeToken w.tokens tokenHash kind at_).2 tokenHash = _
    rw [consumeToken, get_writeToken, ht, Option.map_some, if_pos ⟨rfl, of_decide_eq_true hkind⟩]
  · rw [TokenRecord.spent, if_pos hspent]
    nofun

/-- No call forgets an attempt. -/
theorem attemptsAt_exec_le {w w' : World} {c : Call} {r : Answer c} (h : exec c w = (r, w'))
    (hash : Str) : attemptsAt w.tokens hash ≤ attemptsAt w'.tokens hash := by
  cases c with
  | insertToken record =>
    cases h
    rw [attemptsAt, attemptsAt, get_insertToken]
    split
    · cases get w.tokens hash with
      | none => exact Nat.zero_le _
      | some t => exact Nat.le_refl _
    · exact Nat.le_refl _
  | consumeToken tokenHash kind at_ =>
    cases h
    exact (attemptsAt_consumeToken tokenHash kind at_ hash).ge
  | countAttempt tokenHash kind =>
    cases h
    change attemptsAt w.tokens hash ≤ attemptsAt (countAttempt w.tokens tokenHash kind).2 hash
    rw [countAttempt, attemptsAt, attemptsAt, get_writeToken]
    cases get w.tokens hash with
    | none => exact Nat.le_refl _
    | some t =>
      rw [Option.map_some, Option.elim_some, Option.elim_some, TokenRecord.counted]
      split
      · split
        · exact Nat.le_succ _
        · exact Nat.le_refl _
      · exact Nat.le_refl _
  | spendUserTokens userId kind at_ except =>
    cases h
    exact (attemptsAt_spendUserTokens userId kind at_ except hash).ge
  | _ => cases h; exact Nat.le_refl _

end Calls

/-- Distinct totals from one on are no more than the largest. -/
theorem length_le_of_nodup {totals : List ℕ} {n : ℕ} (hnodup : totals.Nodup)
    (h : ∀ t ∈ totals, 1 ≤ t ∧ t ≤ n) : totals.length ≤ n := by
  have hsub : totals.toFinset ⊆ Finset.Icc 1 n := fun t ht =>
    Finset.mem_Icc.mpr (h t (List.mem_toFinset.mp ht))
  have hcard := Finset.card_le_card hsub
  rwa [List.toFinset_card_of_nodup hnodup, Nat.card_Icc, Nat.add_sub_cancel] at hcard

/-! ## The chain -/

/-- The links stored are a prefix of the chain, each but the last spent. -/
structure Chain (link : ℕ → Str) (tokens : List (Str × TokenRecord)) : Prop where
  kind : ∀ l t, get tokens (link l) = some t → t.kind = .secondFactor
  below : ∀ l t, get tokens (link (l + 1)) = some t → IsSpent tokens (link l)

section Chain

variable {link : ℕ → Str} {tokens tokens' : List (Str × TokenRecord)}

/-- Every link below one stored is spent. -/
theorem Chain.isSpent (h : Chain link tokens) {l j : ℕ} {t : TokenRecord}
    (ht : get tokens (link j) = some t) (hlt : l < j) : IsSpent tokens (link l) := by
  induction j generalizing t with
  | zero => omega
  | succ j ih =>
    have hj := h.below j t ht
    rcases Nat.lt_succ_iff_lt_or_eq.mp hlt with hlt | rfl
    · obtain ⟨s, hs, _⟩ := hj
      exact ih hs hlt
    · exact hj

/-- A call that stores no link keeps the chain. -/
theorem Chain.kept (h : Chain link tokens) (hkept : Kept tokens tokens')
    (hnew : ∀ l, get tokens (link l) = none → get tokens' (link l) = none) :
    Chain link tokens' := by
  have hold : ∀ {l t'}, get tokens' (link l) = some t' →
      ∃ t, get tokens (link l) = some t ∧ t'.kind = t.kind := by
    intro l t' ht'
    cases ht : get tokens (link l) with
    | none => rw [hnew l ht] at ht'; cases ht'
    | some t =>
      obtain ⟨t'', ht'', hkind, _⟩ := hkept _ t ht
      cases ht'.symm.trans ht''
      exact ⟨t, rfl, hkind.1⟩
  constructor
  · intro l t' ht'
    obtain ⟨t, ht, hkind⟩ := hold ht'
    exact hkind.trans (h.kind l t ht)
  · intro l t' ht'
    obtain ⟨t, ht, _⟩ := hold ht'
    exact hkept.isSpent (h.below l t ht)

theorem Chain.consumeToken (h : Chain link tokens) (tokenHash : Str) (kind : TokenKind)
    (at_ : Time) :
    Chain link (consumeToken tokens tokenHash kind at_).2 :=
  h.kept (kept_consumeToken tokenHash kind at_) fun l hl => by
    rw [Auth.consumeToken, get_writeToken, hl, Option.map_none]

theorem Chain.countAttempt (h : Chain link tokens) (tokenHash : Str) (kind : TokenKind) :
    Chain link (countAttempt tokens tokenHash kind).2 :=
  h.kept (kept_countAttempt tokenHash kind) fun l hl => by
    rw [Auth.countAttempt, get_writeToken, hl, Option.map_none]

theorem Chain.spendUserTokens (h : Chain link tokens) (userId : Str) (kind : TokenKind) (at_ : Time)
    (except : Option Str) : Chain link (spendUserTokens tokens userId kind at_ except).2 :=
  h.kept (kept_spendUserTokens userId kind at_ except) fun l hl => by
    rw [get_spendUserTokens, hl, Option.map_none]

/-- A link stored right after a spent one keeps it too. -/
theorem Chain.insertToken (h : Chain link tokens) (hinj : Function.Injective link) {l : ℕ}
    {record : TokenRecord} (hhash : record.tokenHash = link l) (hkind : record.kind = .secondFactor)
    (hbelow : ∀ j < l, IsSpent tokens (link j)) : Chain link (insertToken tokens record) := by
  have hget : ∀ j, j ≠ l → get (Auth.insertToken tokens record) (link j) = get tokens (link j) := by
    intro j hj
    rw [get_insertToken, hhash, if_neg fun e => hj (hinj e).symm]
  have hkept : Kept tokens (Auth.insertToken tokens record) := kept_insertToken record
  constructor
  · intro j t ht
    by_cases hj : j = l
    · subst hj
      rw [get_insertToken, if_pos hhash] at ht
      cases hstored : get tokens (link j) with
      | none =>
        rw [hstored, Option.getD_none] at ht
        cases ht
        exact hkind
      | some s =>
        rw [hstored, Option.getD_some] at ht
        cases ht
        exact h.kind j _ hstored
    · exact h.kind j t (hget j hj ▸ ht)
  · intro j t ht
    by_cases hj : j + 1 = l
    · exact hkept.isSpent (hbelow j (by omega))
    · exact hkept.isSpent (h.below j t (hget _ hj ▸ ht))

/-- A link nobody stored is answered as absent, and only such a one. -/
theorem Chain.countAttempt_none (h : Chain link tokens) {l : ℕ}
    (hnone : (Auth.countAttempt tokens (link l) .secondFactor).1 = none) :
    get tokens (link l) = none ∧ (Auth.countAttempt tokens (link l) .secondFactor).2 = tokens := by
  have hfind : findToken tokens (link l) .secondFactor = none := Option.map_eq_none_iff.mp hnone
  refine ⟨?_, by rw [Auth.countAttempt, writeToken, hfind]⟩
  cases hstored : get tokens (link l) with
  | none => rfl
  | some t => simp [findToken, hstored, h.kind l t hstored, Option.filter] at hfind

/-- A link answered is the one stored, counted. -/
theorem Chain.countAttempt_some (h : Chain link tokens) {l : ℕ} {t : TokenRecord}
    (hsome : (Auth.countAttempt tokens (link l) .secondFactor).1 = some t) :
    get (Auth.countAttempt tokens (link l) .secondFactor).2 (link l) = some t ∧
      ∃ s, get tokens (link l) = some s ∧ t = s.counted := by
  obtain ⟨s, hfind, rfl⟩ := Option.map_eq_some_iff.mp hsome
  have hstored : get tokens (link l) = some s := (Option.filter_eq_some_iff.mp hfind).1
  refine ⟨?_, s, hstored, rfl⟩
  rw [Auth.countAttempt, get_writeToken, hstored, Option.map_some, if_pos ⟨rfl, h.kind l s hstored⟩]

/-- The links stored are those below some number, each but the last of them spent. -/
theorem Chain.exists_length (h : Chain link tokens) (hinj : Function.Injective link) :
    ∃ k, (∀ l, (get tokens (link l)).isSome ↔ l < k) ∧
      ∀ l, l + 1 < k → IsSpent tokens (link l) := by
  have habsent : ∃ l, get tokens (link l) = none := by
    by_contra hall
    have hsub : (Finset.range (tokens.length + 1)).image link ⊆ (tokens.map Prod.fst).toFinset := by
      intro hash hhash
      obtain ⟨l, -, rfl⟩ := Finset.mem_image.mp hhash
      obtain ⟨t, ht⟩ := Option.ne_none_iff_exists'.mp fun hn => hall ⟨l, hn⟩
      exact List.mem_toFinset.mpr (List.mem_map_of_mem (f := Prod.fst) (mem_of_get ht))
    have hcard := (Finset.card_le_card hsub).trans (List.toFinset_card_le _)
    rw [Finset.card_image_of_injective _ hinj, Finset.card_range, List.length_map] at hcard
    omega
  have hstored : ∀ l, (get tokens (link l)).isSome ↔ l < Nat.find habsent := by
    intro l
    constructor
    · intro hl
      refine Nat.lt_of_not_le fun hle => ?_
      rcases Nat.lt_or_eq_of_le hle with hlt | heq
      · obtain ⟨t, ht⟩ := Option.isSome_iff_exists.mp hl
        obtain ⟨s, hs, -⟩ := h.isSpent ht hlt
        rw [Nat.find_spec habsent] at hs
        cases hs
      · rw [← heq, Nat.find_spec habsent] at hl
        cases hl
    · exact fun hlt => Option.ne_none_iff_isSome.mp (Nat.find_min habsent hlt)
  refine ⟨_, hstored, fun l hl => ?_⟩
  obtain ⟨t, ht⟩ := Option.isSome_iff_exists.mp ((hstored _).mpr hl)
  exact h.below l t ht

/-- The attempts counted on the chain are those of the links below an unspent one, and its own. -/
theorem Chain.sum_attemptsAt (h : Chain link tokens) {l n : ℕ} {t : TokenRecord}
    (ht : get tokens (link l) = some t) (hunspent : t.spentAt = none) (hl : l < n) :
    ∑ j ∈ Finset.range n, attemptsAt tokens (link j) =
      (∑ j ∈ Finset.range l, attemptsAt tokens (link j)) + t.attempts := by
  have habove : ∀ j ∈ Finset.range n, j ∉ Finset.range (l + 1) →
    attemptsAt tokens (link j) = 0 := by
    intro j _ hj
    rw [attemptsAt]
    cases hstored : get tokens (link j) with
    | none => rfl
    | some s =>
      obtain ⟨t', ht', hspent⟩ := h.isSpent hstored (Nat.lt_of_succ_le (by simpa using hj))
      cases ht.symm.trans ht'
      exact absurd hunspent hspent
  have hsub : Finset.range (l + 1) ⊆ Finset.range n := Finset.range_subset_range.mpr hl
  rw [← Finset.sum_subset hsub habove, Finset.sum_range_succ, attemptsAt, ht, Option.elim_some]

end Chain

end Janus.Auth
