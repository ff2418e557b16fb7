import Janus.Machinery.Rounds

/-!
# Machinery/Heights — how many rounds a least fixpoint takes

A round reads of each name at worst what the round before found, so that a round finds whatever has
a derivation no higher than there were rounds before it (`deep_round`).  Where everything derived
has a derivation no higher than `L`, rounds end by the one that follows: it finds nothing more
(`rounds_ne_none`).
-/

set_option linter.unusedSectionVars false

open Insertion

namespace Rounds

variable {K I κ ε : Type} [DecidableEq κ] [DecidableEq I] {S : System K I κ ε} {Good : K → Prop}
  {previous : List (κ × List I)} {stuck : ε} {fuel : ℕ} {k : K} {round round' : Round κ I}
  {ids : List I}

variable (S Good) in
/-- Under every name finished stands what `n` steps derive. -/
def Deep (n : ℕ) (m : List (κ × List I)) : Prop :=
  ∀ k, Good k → ∀ ids, get m (S.key k) = some ids → ∀ h ≤ n, ∀ i,
    Cut.DerivesIn (OwedBase S) (OwedEdge S) h (k, i) → i ∈ ids

/-- Nothing is derived under a name with no equation. -/
theorem equation_ne_none {h : ℕ} {a : K × I} (hd : Cut.DerivesIn (OwedBase S) (OwedEdge S) h a) :
    S.equation a.1 ≠ none := by
  cases hd with
  | base hb =>
    obtain ⟨terms, ids, heq, -⟩ := hb
    exact heq ▸ Option.some_ne_none _
  | step he _ =>
    obtain ⟨terms, image, heq, -⟩ := he
    exact heq ▸ Option.some_ne_none _

/-- **A round goes one step further than the one before**, over the same names. -/
theorem deep_round (named : Named S Good) {n : ℕ} (hs : Settled S Good previous [] round)
    (hdeep : ∀ h < n, Deep S Good h previous)
    (hkept : 0 < n → ∀ c, (get round.current c).isSome → (get previous c).isSome) :
    Deep S Good n round.current := by
  intro k hk ids hids h hle i hd
  induction h generalizing k ids i with
  | zero =>
    obtain ⟨terms, heq, hcov⟩ := hs k hk ids hids
    cases hd with
    | base hb =>
      obtain ⟨terms', x, heq', ht, hi⟩ := hb
      cases heq.symm.trans heq'
      obtain ⟨as, has, hsub⟩ := hcov.1 x ht
      exact hsub (hi as has)
  | succ h ih =>
    obtain ⟨terms, heq, hcov⟩ := hs k hk ids hids
    cases hd with
    | @step _ _ b he hb =>
      obtain ⟨terms', image, heq', ht, hi⟩ := he
      cases heq.symm.trans heq'
      have hgood := named.closed hk heq ht
      obtain ⟨reached, hread, himage⟩ := hcov.2 b.1 image ht
      suffices hmem : b.2 ∈ reached by
        obtain ⟨as, has, hsub⟩ := himage b.2 hmem
        exact hsub (hi as has)
      cases hread with
      | finished hget => exact ih b.1 hgood _ hget (Nat.le_of_succ_le hle) b.2 hb
      | cut _ hfinished =>
        have hsome := hkept (Nat.lt_of_lt_of_le (Nat.succ_pos h) hle) _
          (hfinished.resolve_left List.not_mem_nil)
        obtain ⟨before, hbefore⟩ := Option.isSome_iff_exists.mp hsome
        rw [hbefore]
        exact hdeep h hle b.1 hgood before hbefore h (Nat.le_refl h) b.2 hb
      | unknown hnone => exact absurd hnone (equation_ne_none hb)

variable (S Good) in
/-- Every entry is a good name's, and no name has two. -/
structure Keyed (m : List (κ × List I)) : Prop where
  nodup : (m.map Prod.fst).Nodup
  good : ∀ e ∈ m, ∃ k, Good k ∧ S.key k = e.1

theorem reach_keyed (named : Named S Good) {path : List κ} (hk : Good k)
    (hr : Keyed S Good round.current)
    (h : reach S previous stuck fuel path k round = .ok (ids, round')) :
    Keyed S Good round'.current := by
  induction fuel generalizing path k round ids round' with
  | zero => exact absurd h (by simp [reach])
  | succ fuel ih =>
    cases reach_answered h with
    | remembered => exact hr
    | cut => exact hr
    | unknown => exact hr
    | @evaluated terms _ r _ _ heq hloop =>
      have hend : Keyed S Good r.current := by
        refine List.foldlM_ok (fun _ x => Keyed S Good x.2.current) hr
          (fun _ t x y ht hx hy => ?_) hloop
        rcases evalTerm_ok hy with ⟨_, _, _, hround⟩ | ⟨k', image, reached, rfl, hin, _⟩
        · exact hround ▸ hx
        · exact ih (named.closed hk heq ht) hx hin
      refine ⟨nodup_put hend.nodup _ _, fun e he => ?_⟩
      rcases mem_put he with rfl | he
      · exact ⟨k, hk, rfl⟩
      · exact hend.good e he

/-- **Two rounds as deep as anything derived found as much.** -/
theorem same_of_deep {L : ℕ} {current : List (κ × List I)}
    (hheight : ∀ k i, Good k → Derives S k i →
      ∃ h ≤ L, Cut.DerivesIn (OwedBase S) (OwedEdge S) h (k, i))
    (hp : Sound S Good previous) (hc : Sound S Good current) (hkeyed : Keyed S Good current)
    (hkept : ∀ c, (get current c).isSome → (get previous c).isSome)
    (hdeep : Deep S Good L previous) (hdeep' : Deep S Good L current) :
    same previous current = true := by
  refine List.all_eq_true.mpr fun e he => decide_eq_true ?_
  obtain ⟨k, hk, hkey⟩ := hkeyed.good e he
  have hnow : get current (S.key k) = some e.2 := hkey ▸ get_of_mem hkeyed.nodup he
  obtain ⟨before, hbefore⟩ := Option.isSome_iff_exists.mp (hkept (S.key k) (by rw [hnow]; rfl))
  obtain ⟨hnodup, hder⟩ := hp k hk before hbefore
  obtain ⟨hnodup', hder'⟩ := hc k hk e.2 hnow
  have hperm : before.Perm e.2 := by
    refine (List.perm_ext_iff_of_nodup hnodup hnodup').mpr fun i => ⟨fun hi => ?_, fun hi => ?_⟩
    · obtain ⟨h, hle, hd⟩ := hheight k i hk (hder i hi)
      exact hdeep' k hk _ hnow h hle i hd
    · obtain ⟨h, hle, hd⟩ := hheight k i hk (hder' i hi)
      exact hdeep k hk _ hbefore h hle i hd
  rw [← hkey, hbefore]
  exact hperm.length_eq

variable (S Good stuck fuel k) in
/-- What `j` rounds leave to the next. -/
structure After (j : ℕ) (previous : List (κ × List I)) : Prop where
  sound : Sound S Good previous
  rising : Rising S stuck fuel k previous
  deep : ∀ h < j, Deep S Good h previous
  /-- The next finishes the same names. -/
  kept : 0 < j → ∀ {ids round}, reach S previous stuck fuel [] k ⟨[], false⟩ = .ok (ids, round) →
    ∀ c, (get round.current c).isSome → (get previous c).isSome

theorem After.nothing : After S Good stuck fuel k 0 [] where
  sound _ _ _ h := by cases h
  rising := Or.inl rfl
  deep _ h := absurd h (Nat.not_lt_zero _)
  kept h := absurd h (Nat.not_lt_zero _)

/-- **One round more.** -/
theorem After.succ (named : Named S Good) (hk : Good k) {j : ℕ}
    (h : After S Good stuck fuel k j previous)
    (hreach : reach S previous stuck fuel [] k ⟨[], false⟩ = .ok (ids, round)) :
    After S Good stuck fuel k (j + 1) round.current where
  sound := (reach_sound named h.sound hk (fun _ _ _ h => by cases h) hreach).2
  rising := Or.inr ⟨previous, ids, round, h.rising.below hreach, hreach, rfl⟩
  deep h' hlt := by
    have hsettled := (reach_settled named hk (fun _ _ _ h => by cases h) hreach).1
    have hdeep := deep_round named hsettled h.deep fun hj => h.kept hj hreach
    exact fun k' hk' ids' hids' n hn => hdeep k' hk' ids' hids' n
      (Nat.le_trans hn (Nat.lt_succ_iff.mp hlt))
  kept _ _ _ hnext c :=
    ((reach_mono (h.rising.below hreach) (fun _ => ⟨Iff.rfl, List.Subset.refl _⟩) hreach
      hnext).2 c).1.mpr

/-- **Rounds do not run out**: one for every height there is, and one to see that nothing is higher.
-/
theorem rounds_ne_none (named : Named S Good) (hk : Good k) {L n : ℕ}
    (hheight : ∀ k i, Good k → Derives S k i →
      ∃ h ≤ L, Cut.DerivesIn (OwedBase S) (OwedEdge S) h (k, i))
    (hn : L + 2 ≤ n) : rounds S stuck fuel k n [] ≠ .ok none := by
  suffices hloop : ∀ {n j previous}, After S Good stuck fuel k j previous → j ≤ L + 1 →
      L + 2 ≤ n + j → rounds S stuck fuel k n previous ≠ .ok none from
    hloop .nothing (Nat.zero_le _) hn
  intro n
  induction n with
  | zero =>
    intro j previous _ hj hn
    omega
  | succ n ih =>
    intro j previous hafter hj hn h
    rw [rounds] at h
    obtain ⟨⟨found, round⟩, hreach, h⟩ := Except.bind_ok.mp h
    have hnext := hafter.succ named hk hreach
    have hempty : Keyed S Good (⟨[], false⟩ : Round κ I).current :=
      ⟨List.nodup_nil, fun _ he => absurd he List.not_mem_nil⟩
    dsimp only at h
    split at h
    case isTrue => cases Except.pure_ok.mp h
    case isFalse hmore =>
      refine ih hnext (Nat.succ_le_of_lt (lt_of_le_of_ne hj fun hlast => hmore ?_)) (by omega) h
      rw [Bool.or_eq_true]
      subst hlast
      exact Or.inr <| same_of_deep hheight hafter.sound hnext.sound
        (reach_keyed named hk hempty hreach)
        (hafter.kept (Nat.succ_pos L) hreach) (hafter.deep L (Nat.lt_succ_self L))
        (hnext.deep L (by omega))

/-- **What a round throws** is that it is stuck, or what some part of an equation throws. -/
theorem reach_error {path : List κ} {e : ε}
    (h : reach S previous stuck fuel path k round = .error e) :
    e = stuck ∨ ∃ k terms, S.equation k = some terms ∧ (.found (.error e) ∈ terms ∨
      ∃ k' image i, .through k' image ∈ terms ∧ image i = .error e) := by
  induction fuel generalizing path k round with
  | zero =>
    cases h
    exact Or.inl rfl
  | succ fuel ih =>
    rw [reach] at h
    split at h
    · exact (Except.pure_error.mp h).elim
    split at h
    · exact (Except.pure_error.mp h).elim
    split at h
    · exact (Except.pure_error.mp h).elim
    case h_2 terms heq =>
    rcases Except.bind_error.mp h with h | ⟨_, _, h⟩
    · obtain ⟨x, t, ht, h⟩ := List.foldlM_error h
      cases t with
      | found ids =>
        rcases Except.bind_error.mp h with h | ⟨_, _, h⟩
        · exact Or.inr ⟨k, terms, heq, Or.inl (h ▸ ht)⟩
        · exact (Except.pure_error.mp h).elim
      | through k' image =>
        rcases Except.bind_error.mp h with h | ⟨_, _, h⟩
        · exact ih h
        rcases Except.bind_error.mp h with h | ⟨_, _, h⟩
        · obtain ⟨_, j, _, h⟩ := List.foldlM_error h
          rcases Except.bind_error.mp h with h | ⟨_, _, h⟩
          · exact Or.inr ⟨k, terms, heq, Or.inr ⟨k', image, j, ht, h⟩⟩
          · exact (Except.pure_error.mp h).elim
        · exact (Except.pure_error.mp h).elim
    · exact (Except.pure_error.mp h).elim

end Rounds
