import Janus.Auth.Restarting

/-!
# Auth/Probing — a count alone in its window reaches the live link

Probes first double their step until one finds no spent link, then halve the gap between the highest
known spent and the lowest known absent, and the last one stores the link.  With `s` links spent, up
to `2^30`, the doubling takes at most 31 probes and leaves a gap of at most `2^30`, which takes 31
more (`Enough`).
-/

namespace Janus.Auth

open Js Insertion Calls

/-! ## What the budget is enough for -/

/-- The probes left reach the live link, from the highest known spent and one known absent: while
none is, the doubling has its steps to go, and the widest gap it can leave after them. -/
def Enough (probes : ℕ) (below : ℤ) : Option ℤ → Prop
  | none => ∃ k, below = 2 ^ k - 2 ∧ k ≤ 30 ∧ 62 ≤ probes + k
  | some above => ∃ j, above - below ≤ 2 ^ j ∧ j < probes

section Enough

variable {probes : ℕ} {below s : ℤ} {above : Option ℤ}

theorem enough_maxProbes : Enough maxProbes (-1) none :=
  ⟨0, rfl, Nat.zero_le _, by decide⟩

/-- There is a probe left. -/
theorem Enough.pos (h : Enough probes below above) : 0 < probes := by
  cases above with
  | none =>
    obtain ⟨k, -, hk, hprobes⟩ := h
    omega
  | some a =>
    obtain ⟨j, -, hj⟩ := h
    omega

/-- The link probed doubles the step, while none is known absent. -/
theorem nextLink_none {k : ℕ} (h : below = 2 ^ k - 2) : nextLink below none = 2 ^ (k + 1) - 2 := by
  rw [nextLink, h, pow_succ]
  omega

/-- …and is the middle of the gap, once one is and they are apart. -/
theorem nextLink_some {a : ℤ} (h : a ≠ below + 1) : nextLink below (some a) = (below + a) / 2 :=
  if_neg h

/-- A link found absent leaves enough. -/
theorem Enough.of_absent (h : Enough (probes + 1) below above) (hs : below < s)
    (hne : above ≠ some (below + 1)) (habsent : ∀ a ∈ above, s ≤ a) :
    Enough probes below (some (nextLink below above)) := by
  cases above with
  | none =>
    obtain ⟨k, rfl, hk, hprobes⟩ := h
    refine ⟨k, ?_, by omega⟩
    rw [nextLink_none rfl, pow_succ]
    omega
  | some a =>
    have hne : a ≠ below + 1 := fun e => hne (congrArg some e)
    have hgap : s ≤ a := habsent a rfl
    obtain ⟨j, hj, hprobes⟩ := h
    cases j with
    | zero => omega
    | succ j =>
      rw [pow_succ] at hj
      exact ⟨j, by rw [nextLink_some hne]; omega, by omega⟩

/-- …and so does one found spent, short of `2^30` of them. -/
theorem Enough.of_spent (h : Enough (probes + 1) below above) (hbound : s ≤ 2 ^ 30)
    (hlt : nextLink below above < s) (hne : above ≠ some (below + 1))
    (habsent : ∀ a ∈ above, s ≤ a) :
    Enough probes (nextLink below above) (stillAbsent (nextLink below above) above) := by
  cases above with
  | none =>
    obtain ⟨k, rfl, hk, hprobes⟩ := h
    rw [nextLink_none rfl] at hlt ⊢
    refine ⟨k + 1, rfl, ?_, by omega⟩
    refine Nat.le_of_not_lt fun hk' => ?_
    obtain rfl : k = 30 := by omega
    omega
  | some a =>
    have hne : a ≠ below + 1 := fun e => hne (congrArg some e)
    have hgap : s ≤ a := habsent a rfl
    have hstill : stillAbsent (nextLink below (some a)) (some a) = some a :=
      Option.filter_some_pos (decide_eq_true (by omega))
    rw [hstill]
    rw [nextLink_some hne] at hlt ⊢
    obtain ⟨j, hj, hprobes⟩ := h
    cases j with
    | zero => omega
    | succ j =>
      rw [pow_succ] at hj
      exact ⟨j, by omega, by omega⟩

end Enough

/-! ## One probe -/

/-- Links below `s` are stored and spent, `s` is absent or stored unspent, and none after it is
stored. -/
structure LiveAt (links : Links) (tokens : List (Str × TokenRecord)) (s : ℕ) : Prop where
  spent : ∀ l < s, ∃ t, findToken tokens (links.hash l) .secondFactor = some t ∧ t.spentAt ≠ none
  live : get tokens (links.hash s) = none ∨
    ∃ t, findToken tokens (links.hash s) .secondFactor = some t ∧ t.spentAt = none
  absent : ∀ l, s < l → findToken tokens (links.hash l) .secondFactor = none

/-- The live link once counted on, stored if it was not. -/
def countedLive (links : Links) (tokens : List (Str × TokenRecord)) (s : ℕ) : TokenRecord :=
  ((get tokens (links.hash s)).getD (links.record (links.hash s))).counted

section Probe

variable {links : Links} {w : World} {tokenHash : Str} {kind : TokenKind} {t : TokenRecord} {s : ℕ}

/-- Nothing is counted where nothing is stored. -/
theorem exec_countAttempt_absent (h : findToken w.tokens tokenHash kind = none) :
    exec (.countAttempt tokenHash kind) w = (none, w) := by
  rw [exec, countAttempt, writeToken, h]
  rfl

/-- …nor on a spent link. -/
theorem exec_countAttempt_spent (h : findToken w.tokens tokenHash kind = some t)
    (hspent : t.spentAt ≠ none) : exec (.countAttempt tokenHash kind) w = (some t, w) := by
  have hget : get w.tokens tokenHash = some t := (Option.filter_eq_some_iff.mp h).1
  rw [exec, countAttempt, writeToken, h]
  simp only [Option.map_some, counted_of_spent hspent, put_of_get hget]

/-- One attempt on an unspent link is counted there. -/
theorem exec_countAttempt_live (h : findToken w.tokens tokenHash kind = some t) :
    exec (.countAttempt tokenHash kind) w =
      (some t.counted, { w with tokens := put w.tokens tokenHash t.counted }) := by
  rw [exec, countAttempt, writeToken, h]
  rfl

/-- Where a link was stored or counted on, everything else stays. -/
def Recorded (links : Links) (s : ℕ) (w w' : World) : Prop :=
  w' = { w with tokens := w'.tokens } ∧
    ∀ hash, get w'.tokens hash =
      if links.hash s = hash then some (countedLive links w.tokens s) else get w.tokens hash

theorem recorded_live (h : findToken w.tokens (links.hash s) .secondFactor = some t) :
    ∃ w', exec (.countAttempt (links.hash s) .secondFactor) w =
      (some (countedLive links w.tokens s), w') ∧ Recorded links s w w' := by
  have hget : get w.tokens (links.hash s) = some t := (Option.filter_eq_some_iff.mp h).1
  have hlive : countedLive links w.tokens s = t.counted := by
    rw [countedLive, hget, Option.getD_some]
  refine ⟨_, hlive ▸ exec_countAttempt_live h, rfl, fun hash => ?_⟩
  exact get_put _ _ _ _

/-- The link stored, and counted. -/
theorem recorded_insertLink (h : get w.tokens (links.hash s) = none) :
    ∃ w', (insertLink links (links.hash s)).eval exec w =
      (.ok (countedLive links w.tokens s), w') ∧ Recorded links s w w' := by
  set stored : World := { w with tokens := insertToken w.tokens (links.record (links.hash s)) }
  have hget : ∀ hash, get stored.tokens hash = if links.hash s = hash
      then some (links.record (links.hash s)) else get w.tokens hash := by
    intro hash
    rw [get_insertToken]
    change (if links.hash s = hash then _ else _) = _
    split
    case isTrue e => rw [← e, h, Option.getD_none]
    case isFalse => rfl
  have hfind : findToken stored.tokens (links.hash s) .secondFactor =
      some (links.record (links.hash s)) := by
    rw [findToken, hget, if_pos rfl]
    rfl
  have hlive : countedLive links w.tokens s = (links.record (links.hash s)).counted := by
    rw [countedLive, h, Option.getD_none]
  refine ⟨{ stored with tokens := put stored.tokens (links.hash s) (countedLive links w.tokens s) },
    ?_, rfl, fun hash => ?_⟩
  case refine_1 =>
    refine (Prog.eval_bind (Prog.eval_perform rfl) _).trans ?_
    refine (Prog.eval_bind (Prog.eval_perform (exec_countAttempt_live hfind)) _).trans ?_
    rw [hlive]
    rfl
  case refine_2 =>
    rw [get_put, hget]
    split
    · rfl
    · rfl

theorem LiveAt.countedLive_spentAt (h : LiveAt links w.tokens s) :
    (countedLive links w.tokens s).spentAt = none := by
  rw [countedLive, counted_spentAt]
  rcases h.live with h | ⟨t, ht, hunspent⟩
  · rw [h]
    rfl
  · rw [(Option.filter_eq_some_iff.mp ht).1]
    exact hunspent

/-- It makes one attempt more. -/
theorem LiveAt.countedLive_attempts (h : LiveAt links w.tokens s) :
    (countedLive links w.tokens s).attempts = attemptsAt w.tokens (links.hash s) + 1 := by
  have hunspent := h.countedLive_spentAt
  rw [countedLive, counted_spentAt] at hunspent
  rw [countedLive, counted_of_unspent hunspent, attemptsAt]
  cases get w.tokens (links.hash s) <;> rfl

/-! ## Every probe -/

/-- **The probes left reach the live link**, wherever they stand around it. -/
theorem restartFrom_live {probes : ℕ} {below : ℤ} {above : Option ℤ} (hs : s ≤ 2 ^ 30)
    (hlive : LiveAt links w.tokens s) (henough : Enough probes below above) (hbelow : -1 ≤ below)
    (hlt : below < s) (habove : ∀ a ∈ above, (s : ℤ) ≤ a ∧
      (get w.tokens (links.hash s) ≠ none → (s : ℤ) < a)) :
    ∃ w', (restartFrom links probes below above).eval exec w =
      (.ok ⟨some (countedLive links w.tokens s).attempts, some (links.hash s)⟩, w') ∧
      Recorded links s w w' := by
  induction probes generalizing below above with
  | zero => exact absurd henough.pos (Nat.lt_irrefl 0)
  | succ probes ih =>
    have hnext := Restarting.lt_nextLink hbelow fun a ha => lt_of_lt_of_le hlt (habove a ha).1
    -- Once the live link answered, its count is the answer.
    have hanswer : ∀ {w'}, nextLink below above = s →
        (probe links below above (links.hash s)).eval exec w =
          (.ok (some (countedLive links w.tokens s)), w') →
        (restartFrom links (probes + 1) below above).eval exec w =
          (.ok ⟨some (countedLive links w.tokens s).attempts, some (links.hash s)⟩, w') := by
      intro w' hlink hprobe
      rw [restartFrom, hlink, Int.toNat_natCast, Prog.eval_bind hprobe]
      dsimp only
      rw [hlive.countedLive_spentAt]
      rfl
    by_cases hinsert : above = some (below + 1)
    case pos =>
      obtain ⟨hle, hstored⟩ := habove _ hinsert
      have hnone : get w.tokens (links.hash s) = none := by
        by_contra h
        have := hstored h
        omega
      obtain ⟨w', heval, hrecorded⟩ := recorded_insertLink hnone
      have hlink : nextLink below above = s := by
        rw [hinsert]
        exact (if_pos rfl).trans (by omega)
      refine ⟨w', hanswer hlink ?_, hrecorded⟩
      rw [probe, if_pos hinsert]
      exact (Prog.eval_bind heval _).trans rfl
    case neg =>
      have hprobe : ∀ {hash r}, exec (.countAttempt hash .secondFactor) w = (r, w) →
          (probe links below above hash).eval exec w = (.ok r, w) := by
        intro hash r h
        rw [probe, if_neg hinsert]
        exact Prog.eval_perform h
      have hle : ∀ a ∈ above, (s : ℤ) ≤ a := fun a ha => (habove a ha).1
      -- A probe that found nothing brings what is known absent down.
      have habsent : (s : ℤ) ≤ nextLink below above →
          (get w.tokens (links.hash s) ≠ none → (s : ℤ) < nextLink below above) →
          findToken w.tokens (links.hash (nextLink below above).toNat) .secondFactor = none →
          ∃ w', (restartFrom links (probes + 1) below above).eval exec w =
            (.ok ⟨some (countedLive links w.tokens s).attempts, some (links.hash s)⟩, w') ∧
            Recorded links s w w' := by
        intro hlink hstored hfind
        rw [restartFrom, Prog.eval_bind (hprobe (exec_countAttempt_absent hfind))]
        exact ih (henough.of_absent hlt hinsert hle) hbelow hlt fun a ha =>
          Option.mem_some.mp ha ▸ ⟨hlink, hstored⟩
      rcases lt_trichotomy (nextLink below above) s with hspent | hlink | hgt
      · obtain ⟨t, ht, hne⟩ := hlive.spent (nextLink below above).toNat (by omega)
        obtain ⟨at_, hat⟩ := Option.ne_none_iff_exists'.mp hne
        rw [restartFrom, Prog.eval_bind (hprobe (exec_countAttempt_spent ht hne))]
        dsimp only
        rw [hat]
        exact ih (henough.of_spent (by exact_mod_cast hs) hspent hinsert hle) (by omega) hspent
          fun a ha => habove a (Option.filter_eq_some_iff.mp ha).1
      · rcases hlive.live with hnone | ⟨t, ht, -⟩
        · refine habsent hlink.ge (fun h => absurd hnone h) ?_
          rw [hlink, Int.toNat_natCast, findToken, hnone]
          rfl
        · obtain ⟨w', heval, hrecorded⟩ := recorded_live ht
          refine ⟨w', hanswer hlink ?_, hrecorded⟩
          rw [probe, if_neg hinsert]
          exact Prog.eval_perform heval
      · exact habsent hgt.le (fun _ => hgt) (hlive.absent _ (by omega))

end Probe

/-- **The probe reaches the live link.**  In a window no other call counts in, where links below
some `s`, up to `2^30`, are stored and spent, link `s` is absent or unspent, and none after it is
stored: a count ends within its probes, as one attempt on link `s` — stored if it was absent — and
nothing else changes. -/
theorem countRestarting_live (links : Links) {w : World} {s : ℕ} (hs : s ≤ 2 ^ 30)
    (hlive : LiveAt links w.tokens s) :
    let live := links.hash s
    ∃ t w', (countRestarting links).eval exec w = (.ok ⟨some t.attempts, some live⟩, w') ∧
      t = ((get w.tokens live).getD (links.record live)).counted ∧
      t.attempts = attemptsAt w.tokens live + 1 ∧ t.spentAt = none ∧
      (∀ hash, get w'.tokens hash = if live = hash then some t else get w.tokens hash) ∧
      w' = { w with tokens := w'.tokens } := by
  intro live
  obtain ⟨w', heval, hworld, hget⟩ := restartFrom_live hs hlive enough_maxProbes (Int.le_refl _)
    (by omega) nofun
  refine ⟨countedLive links w.tokens s, w', heval, rfl, hlive.countedLive_attempts,
    hlive.countedLive_spentAt, hget, hworld⟩

/-- Ada's links. -/
def adaLinks : Links := linksAt (loginWindow clinic ⟨2, 900000⟩ patient (js "ada@clinic.test") []) 0

/-- The first of them, spent by a sign-in. -/
def firstLink : TokenRecord :=
  { adaLinks.record (adaLinks.hash 0) with attempts := 1, spentAt := some 1000 }

/-- Her login, signed in to once in the window. -/
def signedInOnce : World where
  users := []
  sessions := []
  tokens := [(adaLinks.hash 0, firstLink)]
  clock := 2000
  draws := 0
  coin := false

/-- Her next attempt is counted on the second link. -/
theorem countRestarting_second :
    ∃ w', (countRestarting adaLinks).eval exec signedInOnce =
      (.ok ⟨some 1, some (adaLinks.hash 1)⟩, w') ∧
      attemptsAt w'.tokens (adaLinks.hash 0) = 1 ∧ attemptsAt w'.tokens (adaLinks.hash 1) = 1 := by
  have hne : ∀ l, 0 < l → adaLinks.hash 0 ≠ adaLinks.hash l := fun l hl h =>
    hl.ne (adaLinks.counting.linkHash_injective _ h)
  have hnone : ∀ l, 0 < l → get signedInOnce.tokens (adaLinks.hash l) = none := fun l hl =>
    if_neg (hne l hl)
  have hzero : get signedInOnce.tokens (adaLinks.hash 0) = some firstLink := if_pos rfl
  have hlive : LiveAt adaLinks signedInOnce.tokens 1 := by
    refine ⟨fun l hl => ⟨firstLink, ?_, nofun⟩, Or.inl (hnone 1 Nat.one_pos), fun l hl => ?_⟩
    · rw [Nat.lt_one_iff.mp hl, findToken, hzero]
      rfl
    · rw [findToken, hnone l (by omega)]
      rfl
  obtain ⟨t, w', heval, rfl, hattempts, -, hget, -⟩ :=
    countRestarting_live adaLinks (by decide) hlive
  refine ⟨w', heval, ?_, ?_⟩
  · rw [attemptsAt, hget, if_neg (hne 1 Nat.one_pos).symm, hzero]
    rfl
  · rw [attemptsAt, hget, if_pos rfl, Option.elim_some, hattempts, attemptsAt, hnone 1 Nat.one_pos]
    rfl

end Janus.Auth
