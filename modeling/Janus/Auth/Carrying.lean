import Janus.Auth.Chain

/-!
# Auth/Carrying — the carrying window never forgets a count

However its links are spent meanwhile, the window is a counter: the total a call is answered is the
number of attempts counted on the whole chain, its own included, at the moment it was counted.
-/

namespace Janus.Auth

open Js Insertion Calls

/-! ## What runs on one window -/

/-- A call that counts, or one that spends: by a token's hash, or by the user it is stored under. -/
inductive WindowFlow where
  | count
  | consume (tokenHash : Str) (kind : TokenKind) (at_ : Time)
  | spendUser (userId : Str) (kind : TokenKind) (at_ : Time) (except : Option Str)
deriving DecidableEq

/-- What each does: a count answers what it counted. -/
def WindowFlow.code (counting : AttemptWindow) : WindowFlow → Flow (Option CountedAttempt)
  | .count => do
    let counted ← countInWindow counting
    pure (some counted)
  | .consume tokenHash kind at_ => do
    let _ ← call (.consumeToken tokenHash kind at_)
    pure none
  | .spendUser userId kind at_ except => do
    let _ ← call (.spendUserTokens userId kind at_ except)
    pure none

/-- Any number of them, over one store. -/
def windowService (counting : AttemptWindow) :
    Service Call Answer World Drift WindowFlow Failure (Option CountedAttempt) where
  exec := exec
  drift := drift
  code := WindowFlow.code counting

/-- The log of such a run. -/
abbrev WindowLog := List (Entry Call Answer WindowFlow Failure (Option CountedAttempt))

/-! ## What a counting call does -/

namespace Carrying

/-- The call a counting run makes next, on the link it has come to. -/
inductive Next where
  | counts
  | inserts
  | recounts
deriving DecidableEq

inductive Phase where
  | start
  | going (next : Next) (links : Links) (link carried : ℕ)
  | counted (total : ℕ)
  | failed
  | spent

/-- After a link answered: counted on it, or on to the next. -/
def after (links : Links) (link carried : ℕ) (t : TokenRecord) : Phase :=
  match t.spentAt with
  | none => .counted (carried + t.attempts)
  | some _ => .going .counts links (link + 1) (carried + t.attempts)

inductive Step (counting : AttemptWindow) : WindowFlow → Phase → (c : Call) →
    Answer c → Phase → Prop
  | now (t : Time) : Step counting .count .start .now t (.going .counts (linksAt counting t) 0 0)
  | absent {links link carried} (h : link < maxLinks) :
    Step counting .count (.going .counts links link carried)
      (.countAttempt (links.hash link) .secondFactor) none (.going .inserts links link carried)
  | insert {links link carried} (h : link < maxLinks) :
    Step counting .count (.going .inserts links link carried)
      (.insertToken (links.record (links.hash link))) () (.going .recounts links link carried)
  | tried {next links link carried} (t : TokenRecord) (h : link < maxLinks) (hn : next ≠ .inserts) :
    Step counting .count (.going next links link carried)
      (.countAttempt (links.hash link) .secondFactor) (some t) (after links link carried t)
  | vanished {links link carried} (h : link < maxLinks) :
    Step counting .count (.going .recounts links link carried)
      (.countAttempt (links.hash link) .secondFactor) none .failed
  | consume {tokenHash kind at_ r} :
    Step counting (.consume tokenHash kind at_) .start (.consumeToken tokenHash kind at_) r .spent
  | spendUser {userId kind at_ except r} :
    Step counting (.spendUser userId kind at_ except) .start
      (.spendUserTokens userId kind at_ except) r .spent

/-- What a counting call answers: its total, or infinity past the last link. -/
inductive Total : Counted → Phase → Prop
  | finite {total hash} : Total ⟨some total, some hash⟩ (.counted total)
  | infinite {links carried} : Total ⟨none, none⟩ (.going .counts links maxLinks carried)

def Final : WindowFlow → Except Failure (Option CountedAttempt) → Phase → Prop
  | .count, .ok (some counted), p => Total counted.toCounted p
  | .count, .error _, p => p = .failed
  | .count, .ok none, _ => False
  | _, r, _ => r = .ok none

variable {counting : AttemptWindow}

theorem leads_insertLink {links : Links} {link carried : ℕ} (h : link < maxLinks) :
    Leads exec (Step counting .count) (.going .inserts links link carried)
      (insertLink links (links.hash link)) (fun t p => p = after links link carried t)
      (fun _ p => p = .failed) := by
  refine Leads.bind (Leads.perform fun w r _ => ⟨_, .insert h, ?_⟩)
  refine Leads.bind (Leads.perform fun w r _ => ?_)
  cases r with
  | none => exact ⟨_, .vanished h, rfl⟩
  | some t => exact ⟨_, .tried t h (by decide), rfl⟩

theorem leads_countLink {links : Links} {link carried : ℕ} (h : link < maxLinks) :
    Leads exec (Step counting .count) (.going .counts links link carried)
      (countLink links (links.hash link)) (fun t p => p = after links link carried t)
      (fun _ p => p = .failed) := by
  refine Leads.bind (Leads.perform fun w r _ => ?_)
  cases r with
  | none => exact ⟨_, .absent h, leads_insertLink h⟩
  | some t => exact ⟨_, .tried t h (by decide), rfl⟩

theorem leads_carryFrom {links : Links} {left link carried : ℕ} (h : link + left = maxLinks) :
    Leads exec (Step counting .count) (.going .counts links link carried)
      (carryFrom links left link carried) Total (fun _ p => p = .failed) := by
  induction left generalizing link carried with
  | zero =>
    obtain rfl : link = maxLinks := h
    exact Total.infinite
  | succ left ih =>
    refine Leads.bind ((leads_countLink (by omega)).mono ?_ fun _ _ h => h)
    rintro t _ rfl
    rw [after]
    cases t.spentAt with
    | none => exact Total.finite
    | some _ => exact ih (by omega)

/-- The phases of everybody on a carrying window. -/
def protocol (hspent : counting.spent = .carry) : Protocol (windowService counting) where
  Phase := Phase
  start _ := .start
  Step := Step counting
  Final := Final
  follows f := by
    cases f with
    | consume => exact Leads.bind (Leads.perform fun w r _ => ⟨_, .consume, rfl⟩)
    | spendUser => exact Leads.bind (Leads.perform fun w r _ => ⟨_, .spendUser, rfl⟩)
    | count =>
      refine Leads.bind (Leads.bind (Leads.perform fun w t _ => ⟨_, .now t, ?_⟩))
      rw [hspent]
      refine Leads.bind ((leads_carryFrom (Nat.zero_add _)).mono ?_ fun _ _ h => h)
      exact fun counted p h => h

/-! ## The window as a counter -/

/-- Whoever began counting. -/
def begun (log : WindowLog) : List ℕ :=
  log.filterMap fun
    | .began i .count => some i
    | _ => none

/-- The finite totals answered, in order. -/
def finite (log : WindowLog) : List ℕ :=
  log.filterMap fun
    | .ended _ (.ok (some counted)) => counted.attempts
    | _ => none

/-- The attempts counted on the whole chain. -/
def tally (link : ℕ → Str) (tokens : List (Str × TokenRecord)) : ℕ :=
  ∑ l ∈ Finset.range maxLinks, attemptsAt tokens (link l)

variable {link : ℕ → Str} {tokens tokens' : List (Str × TokenRecord)}

/-- What a call that has come to link `l` knows: the links below it are spent, and their attempts
carried. -/
structure Going (link : ℕ → Str) (tokens : List (Str × TokenRecord)) (next : Next) (links : Links)
    (l carried : ℕ) : Prop where
  hash : ∀ j, links.hash j = link j
  le : l ≤ maxLinks
  below : ∀ j < l, IsSpent tokens (link j)
  carried : carried = ∑ j ∈ Finset.range l, attemptsAt tokens (link j)
  stored : next = .recounts → (Insertion.get tokens (link l)).isSome

theorem Going.kept {next : Next} {links : Links} {l carried : ℕ}
    (h : Going link tokens next links l carried) (hkept : Kept tokens tokens') :
    Going link tokens' next links l carried where
  hash := h.hash
  le := h.le
  below j hj := hkept.isSpent (h.below j hj)
  carried := by
    rw [h.carried]
    exact Finset.sum_congr rfl fun j hj =>
      (hkept.attemptsAt (h.below j (Finset.mem_range.mp hj))).symm
  stored hnext := by
    obtain ⟨t, ht⟩ := Option.isSome_iff_exists.mp (h.stored hnext)
    obtain ⟨t', ht', _⟩ := hkept _ t ht
    rw [ht', Option.isSome_some]

/-- …and what it knows past a spent link. -/
theorem Going.next {next : Next} {links : Links} {l carried : ℕ} {t : TokenRecord}
    (h : Going link tokens next links l carried) (hl : l < maxLinks)
    (ht : Insertion.get tokens (link l) = some t) (hspent : t.spentAt ≠ none) :
    Going link tokens .counts links (l + 1) (carried + t.attempts) where
  hash := h.hash
  le := hl
  below j hj := by
    rcases Nat.lt_succ_iff_lt_or_eq.mp hj with hj | rfl
    · exact h.below j hj
    · exact ⟨t, ht, hspent⟩
  carried := by rw [Finset.sum_range_succ, ← h.carried, attemptsAt, ht, Option.elim_some]
  stored := nofun

/-- **The window as a counter**: every total up to the tally was counted by one call, and by one
only. -/
structure Inv (counting : AttemptWindow) (window : ℕ) (w : World) (log : WindowLog)
    (m : ℕ → Option (WindowFlow × Phase)) : Prop where
  clock : w.clock / counting.windowMs = window
  chain : Chain (counting.linkHash window) w.tokens
  going : ∀ i f next links l carried, m i = some (f, .going next links l carried) →
    Going (counting.linkHash window) w.tokens next links l carried
  standing : ∀ i f, m i ≠ some (f, .failed)
  le_tally : ∀ i f total, m i = some (f, .counted total) →
    f = .count ∧ 1 ≤ total ∧ total ≤ tally (counting.linkHash window) w.tokens
  unique : ∀ i j f g total, m i = some (f, .counted total) → m j = some (g, .counted total) → i = j
  attained : ∀ total, 1 ≤ total → total ≤ tally (counting.linkHash window) w.tokens →
    ∃ i, m i = some (.count, .counted total)
  began : ∀ i p, m i = some (.count, p) → i ∈ begun log
  fresh : ∀ i, i ∈ begun log → m i ≠ none
  ended : ∀ i r, .ended i r ∈ log → ∃ f p, m i = some (f, p) ∧ Final f r p
  nodup : (finite log).Nodup
  before : ∀ l₁ l₂ i f total, log = l₁ ++ .began i .count :: l₂ → m i = some (f, .counted total) →
    ∀ t ∈ finite l₁, t < total
  le_begun : ∀ l₁ l₂ i counted total, log = l₁ ++ .ended i (.ok (some counted)) :: l₂ →
    counted.attempts = some total → total ≤ (begun l₁).length

/-- A finite answer is the total the call counted. -/
theorem Final.total {f : WindowFlow} {counted : CountedAttempt} {p : Phase} {total : ℕ}
    (h : Final f (.ok (some counted)) p) (ht : counted.attempts = some total) :
    f = .count ∧ p = .counted total := by
  cases f with
  | count =>
    obtain ⟨⟨attempts, hash⟩, endsAt⟩ := counted
    obtain rfl : attempts = some total := ht
    cases h
    exact ⟨rfl, rfl⟩
  | consume => cases h
  | spendUser => cases h

theorem mem_finite {log : WindowLog} {t : ℕ} :
    t ∈ finite log ↔ ∃ i counted, .ended i (.ok (some counted)) ∈ log ∧
    counted.attempts = some t := by
  rw [finite, List.mem_filterMap]
  constructor
  · rintro ⟨e, he, h⟩
    split at h
    case h_1 i counted => exact ⟨i, counted, he, h⟩
    case h_2 => cases h
  · rintro ⟨i, counted, he, h⟩
    exact ⟨_, he, h⟩

section Inv

variable {window : ℕ} {w w' : World} {log : WindowLog} {m : ℕ → Option (WindowFlow × Phase)}

theorem Inv.finite_le (h : Inv counting window w log m) {t : ℕ} (ht : t ∈ finite log) :
    (∃ i, m i = some (.count, .counted t)) ∧ 1 ≤ t ∧
      t ≤ tally (counting.linkHash window) w.tokens := by
  obtain ⟨i, counted, he, hc⟩ := mem_finite.mp ht
  obtain ⟨f, p, hi, hfinal⟩ := h.ended i _ he
  obtain ⟨rfl, rfl⟩ := hfinal.total hc
  exact ⟨⟨i, hi⟩, (h.le_tally i _ t hi).2⟩

/-- What a call counted, or nothing. -/
def countedBy (m : ℕ → Option (WindowFlow × Phase)) (i : ℕ) : ℕ :=
  match m i with
  | some (_, .counted total) => total
  | _ => 0

/-- No more was counted than calls began. -/
theorem Inv.tally_le (h : Inv counting window w log m) :
    tally (counting.linkHash window) w.tokens ≤ (begun log).length := by
  have hsub : Finset.Icc 1 (tally (counting.linkHash window) w.tokens) ⊆
      (begun log).toFinset.image (countedBy m) := by
    intro total ht
    obtain ⟨h1, h2⟩ := Finset.mem_Icc.mp ht
    obtain ⟨i, hi⟩ := h.attained total h1 h2
    refine Finset.mem_image.mpr ⟨i, List.mem_toFinset.mpr (h.began i _ hi), ?_⟩
    simp only [countedBy, hi]
  have hcard := (Finset.card_le_card hsub).trans
    (Finset.card_image_le.trans (List.toFinset_card_le _))
  rwa [Nat.card_Icc, Nat.add_sub_cancel] at hcard

/-- What one answered call of `i` does to everybody. -/
theorem Inv.called (h : Inv counting window w log m) {i : ℕ} {f : WindowFlow} {p p' : Phase}
    {c : Call} {r : Answer c} (hi : m i = some (f, p)) (hends : ∀ r', .ended i r' ∉ log)
    (hp : ∀ total, p ≠ .counted total)
    (hclock : w'.clock = w.clock) (hkept : Kept w.tokens w'.tokens)
    (hchain : Chain (counting.linkHash window) w'.tokens) (hstanding : p' ≠ .failed)
    (hgoing : ∀ next links l carried, p' = .going next links l carried →
      Going (counting.linkHash window) w'.tokens next links l carried)
    (hcount : (∀ total, p' ≠ .counted total) ∧
        tally (counting.linkHash window) w'.tokens = tally (counting.linkHash window) w.tokens ∨
      f = .count ∧ p' = .counted (tally (counting.linkHash window) w'.tokens) ∧
        tally (counting.linkHash window) w'.tokens =
        tally (counting.linkHash window) w.tokens + 1) :
    Inv counting window w' (log ++ [.called i c r]) (Function.update m i (some (f, p'))) := by
  have hbegun : begun (log ++ [.called i c r]) = begun log := by simp [begun]
  have hfinite : finite (log ++ [.called i c r]) = finite log := by simp [finite]
  have hself : Function.update m i (some (f, p')) i = some (f, p') := Function.update_self ..
  have hother : ∀ {j}, j ≠ i → Function.update m i (some (f, p')) j = m j :=
    fun hj => Function.update_of_ne hj ..
  have hle : tally (counting.linkHash window) w.tokens ≤
    tally (counting.linkHash window) w'.tokens := by
    rcases hcount with ⟨_, ht⟩ | ⟨_, _, ht⟩ <;> omega
  -- whoever counted did before, or is `i`, and counted just now
  have hcounted : ∀ {j g total}, Function.update m i (some (f, p')) j = some (g, .counted total) →
      (j ≠ i ∧ m j = some (g, .counted total)) ∨ (j = i ∧ g = .count ∧
        total = tally (counting.linkHash window) w'.tokens ∧
        tally (counting.linkHash window) w'.tokens =
          tally (counting.linkHash window) w.tokens + 1) := by
    intro j g total hj
    by_cases hji : j = i
    · subst hji
      rw [hself] at hj
      cases hj
      rcases hcount with ⟨hno, _⟩ | ⟨hf, hp', ht⟩
      · exact absurd rfl (hno total)
      · exact Or.inr ⟨rfl, hf, Phase.counted.inj hp', ht⟩
    · exact Or.inl ⟨hji, (hother hji) ▸ hj⟩
  refine
    { clock := hclock ▸ h.clock
      chain := hchain
      going := fun j g next links l carried hj => ?_
      standing := fun j g hj => ?_
      le_tally := fun j g total hj => ?_
      unique := fun j j' g g' total hj hj' => ?_
      attained := fun total h1 h2 => ?_
      began := fun j q hj => hbegun ▸ ?_
      fresh := fun j hj => ?_
      ended := fun j r' hj => ?_
      nodup := hfinite ▸ h.nodup
      before := fun l₁ l₂ j g total hlog hj t ht => ?_
      le_begun := fun l₁ l₂ j counted total hlog hc => ?_ }
  case refine_1 =>
    by_cases hji : j = i
    · subst hji
      rw [hself] at hj
      cases hj
      exact hgoing next links l carried rfl
    · exact (h.going j g next links l carried (hother hji ▸ hj)).kept hkept
  case refine_2 =>
    by_cases hji : j = i
    · subst hji
      rw [hself] at hj
      cases hj
      exact hstanding rfl
    · exact h.standing j g (hother hji ▸ hj)
  case refine_3 =>
    rcases hcounted hj with ⟨_, hj⟩ | ⟨_, hg, ht, ht'⟩
    · obtain ⟨hg, h1, h2⟩ := h.le_tally j g total hj
      exact ⟨hg, h1, h2.trans hle⟩
    · exact ⟨hg, by omega, by omega⟩
  case refine_4 =>
    rcases hcounted hj with ⟨_, hj⟩ | ⟨hji, _, ht, ht'⟩ <;>
      rcases hcounted hj' with ⟨_, hj'⟩ | ⟨hji', _, hu, hu'⟩
    · exact h.unique j j' g g' total hj hj'
    · have := (h.le_tally j g total hj).2.2
      omega
    · have := (h.le_tally j' g' total hj').2.2
      omega
    · rw [hji, hji']
  case refine_5 =>
    by_cases hold : total ≤ tally (counting.linkHash window) w.tokens
    · obtain ⟨j, hj⟩ := h.attained total h1 hold
      have hji : j ≠ i := by
        rintro rfl
        exact hp total (congrArg Prod.snd (Option.some.inj (hi.symm.trans hj)))
      exact ⟨j, (hother hji).trans hj⟩
    · rcases hcount with ⟨_, ht⟩ | ⟨hf, hp', ht⟩
      · exact absurd (ht ▸ h2) hold
      · have htotal : total = tally (counting.linkHash window) w'.tokens :=
          Nat.le_antisymm h2 (ht ▸ Nat.lt_of_not_le hold)
        exact ⟨i, by rw [hself, hf, hp', htotal]⟩
  case refine_6 =>
    by_cases hji : j = i
    · subst hji
      rw [hself] at hj
      cases hj
      exact h.began j p hi
    · exact h.began j q (hother hji ▸ hj)
  case refine_7 =>
    by_cases hji : j = i
    · rw [hji, hself]
      exact Option.some_ne_none _
    · rw [hother hji]
      exact h.fresh j (hbegun ▸ hj)
  case refine_8 =>
    rcases List.mem_append.mp hj with hold | hnew
    · have hji : j ≠ i := by
        rintro rfl
        exact hends r' hold
      rw [hother hji]
      exact h.ended j r' hold
    · cases List.mem_singleton.mp hnew
  case refine_9 =>
    rcases concat_eq_append_cons hlog with ⟨_, he⟩ | ⟨l₃, _, hlog⟩
    · cases he
    · rcases hcounted hj with ⟨_, hj⟩ | ⟨_, _, htotal, htotal'⟩
      · exact h.before l₁ l₃ j g total hlog hj t ht
      · have hmem : t ∈ finite log := by
          rw [hlog, finite, List.filterMap_append]
          exact List.mem_append_left _ ht
        have := (h.finite_le hmem).2.2
        omega
  case refine_10 =>
    rcases concat_eq_append_cons hlog with ⟨_, he⟩ | ⟨l₃, _, hlog⟩
    · cases he
    · exact h.le_begun l₁ l₃ j counted total hlog hc

/-- One answered call keeps the window a counter. -/
theorem Inv.step (h : Inv counting window w log m) {i : ℕ} {f : WindowFlow}
    {p p' : Phase} {c : Call}
    {r : Answer c} (hi : m i = some (f, p)) (hends : ∀ r', .ended i r' ∉ log)
    (hexec : exec c w = (r, w')) (hstep : Step counting f p c r p') :
    Inv counting window w' (log ++ [.called i c r]) (Function.update m i (some (f, p'))) := by
  cases hstep with
  | now t =>
    cases hexec
    refine h.called hi hends nofun rfl (Kept.refl _) h.chain nofun ?_ (Or.inl ⟨nofun, rfl⟩)
    rintro next links l carried hp'
    cases hp'
    exact
      { hash := fun j => by rw [Links.hash, linksAt, h.clock]
        le := Nat.zero_le _
        below := nofun
        carried := rfl
        stored := nofun }
  | @absent links l carried hl =>
    have hg := h.going i _ _ _ _ _ hi
    obtain ⟨hr, rfl⟩ := Prod.mk.inj hexec
    rw [hg.hash] at hr ⊢
    obtain ⟨_, htokens⟩ := h.chain.countAttempt_none hr
    have hkept : Kept w.tokens (countAttempt w.tokens (counting.linkHash window l) .secondFactor).2 :=
      kept_countAttempt _ _
    refine h.called hi hends nofun rfl hkept (h.chain.countAttempt ..) nofun ?_
      (Or.inl ⟨nofun, congrArg (tally _) htokens⟩)
    rintro next links' l' carried' hp'
    cases hp'
    exact { hg.kept hkept with stored := nofun }
  | @insert links l carried hl =>
    cases hexec
    have hg := h.going i _ _ _ _ _ hi
    have hhash : (links.record (links.hash l)).tokenHash = counting.linkHash window l := hg.hash l
    have hkept : Kept w.tokens (insertToken w.tokens (links.record (links.hash l))) :=
      kept_insertToken _
    refine h.called hi hends nofun rfl hkept
      (h.chain.insertToken (counting.linkHash_injective window) hhash rfl hg.below) nofun ?_
      (Or.inl ⟨nofun, Finset.sum_congr rfl fun j _ => attemptsAt_insertToken rfl _⟩)
    rintro next links' l' carried' hp'
    cases hp'
    exact { hg.kept hkept with
      stored := fun _ => by rw [get_insertToken, if_pos hhash, Option.isSome_some] }
  | @vanished links l carried hl =>
    have hg := h.going i _ _ _ _ _ hi
    obtain ⟨hr, rfl⟩ := Prod.mk.inj hexec
    rw [hg.hash] at hr
    have hstored := hg.stored rfl
    rw [(h.chain.countAttempt_none hr).1] at hstored
    cases hstored
  | @tried next links l carried t hl hn =>
    have hg := h.going i _ _ _ _ _ hi
    obtain ⟨hr, rfl⟩ := Prod.mk.inj hexec
    rw [hg.hash] at hr ⊢
    obtain ⟨ht, s, hs, rfl⟩ := h.chain.countAttempt_some hr
    have hchain := h.chain.countAttempt (counting.linkHash window l) .secondFactor
    have hkept : Kept w.tokens (countAttempt w.tokens (counting.linkHash window l) .secondFactor).2 :=
      kept_countAttempt _ _
    by_cases hspent : s.spentAt = none
    · have hunspent : s.counted.spentAt = none := (counted_spentAt s).trans hspent
      have hold := h.chain.sum_attemptsAt hs hspent hl
      have hnew := hchain.sum_attemptsAt ht hunspent hl
      rw [← hg.carried] at hold
      rw [← (hg.kept hkept).carried, counted_of_unspent hspent] at hnew
      have hafter : after links l carried s.counted = .counted (carried + (s.attempts + 1)) := by
        rw [after, hunspent, counted_of_unspent hspent]
      refine h.called hi hends (fun _ hp => nomatch hp) rfl hkept hchain ?_ ?_
        (Or.inr ⟨rfl, hafter.trans (congrArg Phase.counted hnew.symm), ?_⟩)
      · rw [hafter]
        exact nofun
      · rw [hafter]
        exact fun _ _ _ _ hp' => nomatch hp'
      · exact hnew.trans (congrArg (· + 1) hold.symm)
    · rw [counted_of_spent hspent] at ht ⊢
      have hsame : ∀ hash, get (countAttempt w.tokens (counting.linkHash window l) .secondFactor).2
          hash = get w.tokens hash :=
        countAttempt_of_spent fun t ht' _ => Option.some.inj (hs.symm.trans ht') ▸ hspent
      obtain ⟨at_, hat⟩ := Option.ne_none_iff_exists'.mp hspent
      have hafter : after links l carried s =
        .going .counts links (l + 1) (carried + s.attempts) := by
        rw [after, hat]
      rw [hafter]
      refine h.called hi hends (fun _ hp => nomatch hp) rfl hkept hchain nofun ?_
        (Or.inl ⟨nofun, Finset.sum_congr rfl fun j _ => ?_⟩)
      · rintro next' links' l' carried' hp'
        cases hp'
        exact (hg.kept hkept).next hl ht hspent
      · exact congrArg (Option.elim · 0 TokenRecord.attempts) (hsame _)
  | @consume tokenHash kind at_ r =>
    cases hexec
    exact h.called hi hends nofun rfl (kept_consumeToken tokenHash kind at_)
      (h.chain.consumeToken tokenHash kind at_) nofun (fun _ _ _ _ hp' => nomatch hp')
      (Or.inl ⟨nofun, Finset.sum_congr rfl fun l _ => attemptsAt_consumeToken ..⟩)
  | @spendUser userId kind at_ except r =>
    cases hexec
    exact h.called hi hends nofun rfl (kept_spendUserTokens userId kind at_ except)
      (h.chain.spendUserTokens userId kind at_ except) nofun (fun _ _ _ _ hp' => nomatch hp')
      (Or.inl ⟨nofun, Finset.sum_congr rfl fun l _ => attemptsAt_spendUserTokens ..⟩)

/-- The clock moving within the window keeps it. -/
theorem Inv.drift (h : Inv counting window w log m) {e : Drift}
    (hok : ∀ t, e = .tick t → t / counting.windowMs = window) :
    Inv counting window (drift e w) log m := by
  cases e with
  | tick t => exact { h with clock := hok t rfl }
  | toss first => exact { h with clock := h.clock }

/-- So does a call that begins. -/
theorem Inv.beginning (h : Inv counting window w log m) {i : ℕ} (f : WindowFlow) (hi : m i = none) :
    Inv counting window w (log ++ [.began i f]) (Function.update m i (some (f, .start))) := by
  have hother : ∀ {j g p}, Function.update m i (some (f, .start)) j = some (g, p) → p ≠ .start →
      m j = some (g, p) := by
    intro j g p hj hp
    by_cases hji : j = i
    · rw [hji, Function.update_self] at hj
      cases hj
      exact absurd rfl hp
    · rwa [Function.update_of_ne hji] at hj
  have hold : ∀ {j}, m j ≠ none → Function.update m i (some (f, .start)) j = m j := by
    intro j hj
    refine Function.update_of_ne ?_ ..
    rintro rfl
    exact hj hi
  have hfinite : finite (log ++ [.began i f]) = finite log := by simp [finite]
  refine
    { clock := h.clock
      chain := h.chain
      going := fun j g next links l carried hj =>
        h.going j g next links l carried (hother hj fun hp => nomatch hp)
      standing := fun j g hj => h.standing j g (hother hj fun hp => nomatch hp)
      le_tally := fun j g total hj => h.le_tally j g total (hother hj fun hp => nomatch hp)
      unique := fun j j' g g' total hj hj' => h.unique j j' g g' total
        (hother hj fun hp => nomatch hp) (hother hj' fun hp => nomatch hp)
      attained := fun total h1 h2 => ?_
      began := fun j p hj => ?_
      fresh := fun j hj => ?_
      ended := fun j r hj => ?_
      nodup := hfinite ▸ h.nodup
      before := fun l₁ l₂ j g total hlog hj t ht => ?_
      le_begun := fun l₁ l₂ j counted total hlog hc => ?_ }
  case refine_1 =>
    obtain ⟨j, hj⟩ := h.attained total h1 h2
    exact ⟨j, (hold (hj ▸ Option.some_ne_none _)).trans hj⟩
  case refine_2 =>
    rw [begun, List.filterMap_append]
    by_cases hji : j = i
    · rw [hji, Function.update_self] at hj
      cases hj
      exact List.mem_append_right _ (by simp [hji])
    · rw [Function.update_of_ne hji] at hj
      exact List.mem_append_left _ (h.began j p hj)
  case refine_3 =>
    by_cases hji : j = i
    · rw [hji, Function.update_self]
      exact Option.some_ne_none _
    · have hmem : j ∈ begun log := by
        rw [begun, List.filterMap_append] at hj
        refine (List.mem_append.mp hj).resolve_right fun hnew => hji ?_
        cases f <;> simp_all
      rw [hold (h.fresh j hmem)]
      exact h.fresh j hmem
  case refine_4 =>
    have hmem : .ended j r ∈ log := by simpa using hj
    obtain ⟨g, p, hp, hfinal⟩ := h.ended j r hmem
    exact ⟨g, p, (hold (hp ▸ Option.some_ne_none _)).trans hp, hfinal⟩
  case refine_5 =>
    have hmj := hother hj fun hp => nomatch hp
    rcases concat_eq_append_cons hlog with ⟨_, he⟩ | ⟨l₃, _, hlog⟩
    · cases he
      rw [hi] at hmj
      cases hmj
    · exact h.before l₁ l₃ j g total hlog hmj t ht
  case refine_6 =>
    rcases concat_eq_append_cons hlog with ⟨_, he⟩ | ⟨l₃, _, hlog⟩
    · cases he
    · exact h.le_begun l₁ l₃ j counted total hlog hc

/-- …and one that ends. -/
theorem Inv.finishing (h : Inv counting window w log m) {i : ℕ} {f : WindowFlow} {p : Phase}
    {r : Except Failure (Option CountedAttempt)} (hi : m i = some (f, p)) (hfinal : Final f r p)
    (hends : ∀ r', .ended i r' ∉ log) : Inv counting window w (log ++ [.ended i r]) m where
  clock := h.clock
  chain := h.chain
  going := h.going
  standing := h.standing
  le_tally := h.le_tally
  unique := h.unique
  attained := h.attained
  began j q hj := by
    rw [begun, List.filterMap_append]
    exact List.mem_append_left _ (h.began j q hj)
  fresh j hj := h.fresh j (by simpa [begun] using hj)
  ended j r' hj := by
    rcases List.mem_append.mp hj with hj | hj
    · exact h.ended j r' hj
    · cases List.mem_singleton.mp hj
      exact ⟨f, p, hi, hfinal⟩
  nodup := by
    rw [finite, List.filterMap_append]
    refine List.nodup_append.mpr ⟨h.nodup, by cases r with
      | error e => simp
      | ok a => cases a with
        | none => simp
        | some counted => cases hc : counted.attempts <;> simp [hc], fun t ht t' ht' => ?_⟩
    obtain ⟨j, counted, he, hc⟩ := mem_finite.mp ht
    obtain ⟨j', counted', he', hc'⟩ := mem_finite.mp ht'
    rintro rfl
    cases List.mem_singleton.mp he'
    obtain ⟨g, q, hj, hq⟩ := h.ended j _ he
    obtain ⟨rfl, rfl⟩ := hq.total hc
    obtain ⟨rfl, rfl⟩ := hfinal.total hc'
    exact hends _ (h.unique j i _ _ t hj hi ▸ he)
  before l₁ l₂ j g total hlog hj := by
    rcases concat_eq_append_cons hlog with ⟨_, he⟩ | ⟨l₃, _, hlog⟩
    · cases he
    · exact h.before l₁ l₃ j g total hlog hj
  le_begun l₁ l₂ j counted total hlog hc := by
    rcases concat_eq_append_cons hlog with ⟨rfl, he⟩ | ⟨l₃, _, hlog⟩
    · cases he
      obtain ⟨rfl, rfl⟩ := hfinal.total hc
      exact (h.le_tally i _ total hi).2.2.trans h.tally_le
    · exact h.le_begun l₁ l₃ j counted total hlog hc

/-- What may happen: anything within the window. -/
def Within (counting : AttemptWindow) (window : ℕ) (mv : Move Drift WindowFlow) : Prop :=
  ∀ t, mv = .drift (.tick t) → t / counting.windowMs = window

theorem keeps (hspent : counting.spent = .carry) :
    (protocol hspent).Keeps (Within counting window) (Inv counting window) where
  drift h hok := h.drift fun t he => hok t (he ▸ rfl)
  began h hi _ := h.beginning _ hi
  called h hi hends hexec hstep := h.step hi hends hexec hstep
  ended h hi hfinal hends := h.finishing hi hfinal hends

/-- A window nobody counted in. -/
theorem Inv.start (hclock : w.clock / counting.windowMs = window)
    (hempty : ∀ l, get w.tokens (counting.linkHash window l) = none) :
    Inv counting window w [] fun _ => none where
  clock := hclock
  chain :=
    { kind := fun l t ht => by rw [hempty] at ht; cases ht
      below := fun l t ht => by rw [hempty] at ht; cases ht }
  going _ _ _ _ _ _ h := nomatch h
  standing _ _ h := nomatch h
  le_tally _ _ _ h := nomatch h
  unique _ _ _ _ _ h := nomatch h
  attained total h1 h2 := by
    have htally : tally (counting.linkHash window) w.tokens = 0 :=
      Finset.sum_eq_zero fun l _ => by rw [attemptsAt, hempty, Option.elim_none]
    omega
  began _ _ h := nomatch h
  fresh _ h := absurd h List.not_mem_nil
  ended _ _ h := absurd h List.not_mem_nil
  nodup := List.nodup_nil
  before l₁ _ _ _ _ h := by cases l₁ <;> cases h
  le_begun l₁ _ _ _ _ h := by cases l₁ <;> cases h

/-! ## Past the last link -/

/-- Every link of the window spent. -/
def Exhausted (counting : AttemptWindow) (window : ℕ) (w : World) : Prop :=
  ∀ l < maxLinks, IsSpent w.tokens (counting.linkHash window l)

/-- No attempt is counted on a spent link. -/
theorem Inv.not_counted (h : Inv counting window w log m) (hspent : Exhausted counting window w)
    {i : ℕ} {f : WindowFlow} {p p' : Phase} {c : Call} {r : Answer c} (hi : m i = some (f, p))
    (hexec : exec c w = (r, w')) (hstep : Step counting f p c r p') (total : ℕ) :
    p' ≠ .counted total := by
  intro heq
  cases hstep with
  | @tried next links l carried t hl hn =>
    obtain ⟨hr, -⟩ := Prod.mk.inj hexec
    rw [(h.going i _ _ _ _ _ hi).hash] at hr
    obtain ⟨_, s, hs, rfl⟩ := h.chain.countAttempt_some hr
    obtain ⟨s', hs', hne⟩ := hspent l hl
    cases hs.symm.trans hs'
    obtain ⟨at_, hat⟩ := Option.ne_none_iff_exists'.mp ((counted_spentAt s).symm ▸ hne)
    rw [after, hat] at heq
    cases heq
  | _ => cases heq

/-- From then on, nobody who begins counts anything. -/
structure Past (counting : AttemptWindow) (window n : ℕ) (w : World) (log : WindowLog)
    (m : ℕ → Option (WindowFlow × Phase)) : Prop extends Inv counting window w log m where
  exhausted : Exhausted counting window w
  none_counted : ∀ i f total, n ≤ i → m i ≠ some (f, .counted total)

theorem past_keeps (hspent : counting.spent = .carry) (n : ℕ) :
    (protocol hspent).Keeps (Within counting window) (Past counting window n) where
  drift {w log m e} h hok :=
    { (keeps hspent).drift h.toInv hok with
      exhausted := by cases e <;> exact h.exhausted
      none_counted := h.none_counted }
  began {w log m i f} h hi hok :=
    { (keeps hspent).began h.toInv hi hok with
      exhausted := h.exhausted
      none_counted := fun j g total hn hj => by
        by_cases hji : j = i
        · rw [hji, Function.update_self] at hj
          cases hj
        · exact h.none_counted j g total hn (Function.update_of_ne hji _ m ▸ hj) }
  called {w w' log m i f p c r p'} h hi hends hexec hstep :=
    { (keeps hspent).called h.toInv hi hends hexec hstep with
      exhausted := fun l hl => (kept_exec hexec).isSpent (h.exhausted l hl)
      none_counted := fun j g total hn hj => by
        by_cases hji : j = i
        · subst hji
          rw [Function.update_self] at hj
          cases hj
          exact h.not_counted h.exhausted hi hexec hstep total rfl
        · exact h.none_counted j g total hn (Function.update_of_ne hji _ m ▸ hj) }
  ended h hi hfinal hends :=
    { (keeps hspent).ended h.toInv hi hfinal hends with
      exhausted := h.exhausted
      none_counted := h.none_counted }

end Inv

/-! ## What the window answers -/

section Answers

variable {window : ℕ} {w : World} {log : WindowLog} {m : ℕ → Option (WindowFlow × Phase)}
  {i : ℕ} {counted : CountedAttempt}

theorem Inv.answered (h : Inv counting window w log m)
    (hi : .ended i (.ok (some counted)) ∈ log) :
    ∃ f p, m i = some (f, p) ∧ Final f (.ok (some counted)) p := h.ended i _ hi

/-- Whoever began later counts more than all that was answered before. -/
theorem Inv.lt_answer (h : Inv counting window w log m) {l₁ l₂ : WindowLog} {total : ℕ}
    (hlog : log = l₁ ++ .began i .count :: l₂) (hi : .ended i (.ok (some counted)) ∈ log)
    (ht : counted.attempts = some total) : (finite l₁).length + 1 ≤ total := by
  obtain ⟨f, p, hp, hfinal⟩ := h.answered hi
  obtain ⟨rfl, rfl⟩ := hfinal.total ht
  have hsub : (finite l₁).Sublist (finite log) := by
    rw [hlog, finite, finite, List.filterMap_append]
    exact List.sublist_append_left ..
  have hlt := h.before l₁ l₂ i _ total hlog hp
  have hpos := (h.le_tally i _ total hp).2.1
  have hlen : (finite l₁).length ≤ total - 1 :=
    length_le_of_nodup (hsub.nodup h.nodup) fun t ht => by
    have := (h.finite_le (hsub.subset ht)).2.1
    have := hlt t ht
    omega
  omega

/-- An infinite answer was given past the last link. -/
theorem Inv.exhausted (h : Inv counting window w log m)
    (hi : .ended i (.ok (some counted)) ∈ log) (ht : counted.attempts = none) :
    Exhausted counting window w := by
  obtain ⟨f, p, hp, hfinal⟩ := h.answered hi
  cases f with
  | consume => cases hfinal
  | spendUser => cases hfinal
  | count =>
    obtain ⟨⟨attempts, hash⟩, endsAt⟩ := counted
    obtain rfl : attempts = none := ht
    cases hfinal
    exact (h.going i _ _ _ _ _ hp).below

end Answers

end Carrying

open Carrying in
/-- **The carrying window never forgets a count.**  However counts and spends interleave within a
window nobody counted in yet: no count fails; the finite totals answered are distinct, each above
the number answered before its call began and at most the number of calls begun so far; an infinite
answer means that every link is spent, and once every link is, every call that begins is answered
infinity.  So no more than `limit` calls ever get a total of at most `limit`. -/
theorem carrying_never_forgets {counting : AttemptWindow} (hspent : counting.spent = .carry)
    {w : World} {window : ℕ} (hclock : w.clock / counting.windowMs = window)
    (hempty : ∀ l, get w.tokens (counting.linkHash window l) = none)
    {moves : List (Move Drift WindowFlow)} (hwithin : ∀ mv ∈ moves, Within counting window mv) :
    let run := (windowService counting).run w
    let log := (run moves).log
    (∀ i e, .ended i (.error e) ∉ log) ∧
    (finite log).Nodup ∧
    (∀ l₁ l₂ i counted total, log = l₁ ++ .began i .count :: l₂ →
      .ended i (.ok (some counted)) ∈ log → counted.attempts = some total →
      (finite l₁).length + 1 ≤ total) ∧
    (∀ l₁ l₂ i counted total, log = l₁ ++ .ended i (.ok (some counted)) :: l₂ →
      counted.attempts = some total → total ≤ (begun l₁).length) ∧
    (∀ i counted, .ended i (.ok (some counted)) ∈ log → counted.attempts = none →
      Exhausted counting window (run moves).world) ∧
    (∀ before more i counted, moves = before ++ more → Exhausted counting window (run before).world →
      (run before).threads.length ≤ i → .ended i (.ok (some counted)) ∈ log →
      counted.attempts = none) ∧
    ∀ limit, ((finite log).filter (· ≤ limit)).length ≤ limit := by
  have hstart := Inv.start hclock hempty
  obtain ⟨m, _, hinv⟩ := (keeps hspent).run hstart hwithin
  refine ⟨fun i e hi => ?_, hinv.nodup, fun _ _ _ _ _ => hinv.lt_answer,
    fun l₁ l₂ i counted total hlog => hinv.le_begun l₁ l₂ i counted total hlog,
    fun _ _ hi => hinv.exhausted hi, fun before more i counted hmoves hexhausted hlater hi => ?_,
    fun limit => ?_⟩
  case refine_1 =>
    obtain ⟨f, p, hp, hfinal⟩ := hinv.ended i _ hi
    cases f with
    | count =>
      obtain rfl : p = .failed := hfinal
      exact hinv.standing i _ hp
    | consume => cases hfinal
    | spendUser => cases hfinal
  case refine_2 =>
    subst hmoves
    obtain ⟨m₁, hmatches, hinv₁⟩ := (keeps hspent).run hstart fun mv h =>
      hwithin mv (List.mem_append_left _ h)
    have hnone : ∀ j f total, _ ≤ j → m₁ j ≠ some (f, .counted total) :=
      fun j f total hj hcounted => by
      rw [(hmatches.of_none (List.getElem?_eq_none (hlater.trans hj))).1] at hcounted
      cases hcounted
    obtain ⟨m₂, _, hpast⟩ := (past_keeps hspent i).run_from hmatches ⟨hinv₁, hexhausted, hnone⟩
      fun mv h => hwithin mv (List.mem_append_right _ h)
    rw [← Service.run_append] at hpast
    cases ht : counted.attempts with
    | none => rfl
    | some total =>
      obtain ⟨f, p, hp, hfinal⟩ := hpast.answered hi
      obtain ⟨rfl, rfl⟩ := hfinal.total ht
      exact absurd hp (hpast.none_counted i _ total (Nat.le_refl i))
  case refine_3 =>
    refine length_le_of_nodup (hinv.nodup.filter _) fun t ht => ?_
    obtain ⟨hmem, hle⟩ := List.mem_filter.mp ht
    exact ⟨(hinv.finite_le hmem).2.1, of_decide_eq_true hle⟩

/-! ## A window of ten minutes -/

/-- Links named by their window and their number. -/
def tenMinutes (spent : Spent) : AttemptWindow where
  windowMs := 600000
  spent := spent
  userId := js "ada"
  linkHash window link := decimal window ++ js ":" ++ decimal link
  vanished := .typeError (js "the token store lost a link")
  linkHash_injective _ _ _ h := decimal_injective (List.append_cancel_left h)

/-- Two calls that count, the user's tokens spent between them. -/
def countedTwice : List (Move Drift WindowFlow) :=
  [.begin .count, .step 0, .step 0, .drift (.tick 300000), .begin .count, .step 0, .step 0,
    .begin (.spendUser (js "ada") .secondFactor 300000 none), .step 2, .step 1, .step 1, .step 1,
    .step 1, .step 1]

open Carrying in
/-- The first is answered one, and the second two: on the next link. -/
theorem carrying_never_forgets_twice :
    let log := ((windowService (tenMinutes .carry)).run ⟨[], [], [], 0, 0, false⟩ countedTwice).log
    finite log = [1, 2] ∧ ((finite log).filter (· ≤ 1)).length ≤ 1 := by
  refine ⟨by decide +kernel, ?_⟩
  have hwithin : ∀ mv ∈ countedTwice, Within (tenMinutes .carry) 0 mv := by
    intro mv hmv t ht
    subst ht
    obtain rfl : t = 300000 := by simpa [countedTwice] using hmv
    rfl
  exact (@carrying_never_forgets (tenMinutes .carry) rfl _ 0 rfl (fun _ => rfl) _
    hwithin).2.2.2.2.2.2 1

end Janus.Auth
