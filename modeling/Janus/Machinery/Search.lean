import Janus.Machinery.Insertion
import Janus.Machinery.Outcome
import Mathlib.Logic.Relation
import Mathlib.Data.List.Perm.Subperm

/-!
# Machinery/Search — depth first, looking for a loop

Every node is visited once, and the nodes being visited are kept in order: meeting one of them again
is a loop.  The search refuses exactly the graphs with a loop (`search_ok_iff`); where it does not,
a node's successors come before it (`acc_of_search`), and a walk along the edges ends within as many
steps as there are nodes (`length_lt_of_reaches`).
-/

namespace Search

open Insertion Relation

universe u

variable {κ : Type u} [DecidableEq κ] (succ : κ → List κ)

/-- Why a search stopped: it met a node it was visiting, or it had no fuel. -/
inductive Stop (κ : Type u) where
  | loop (path : List κ)
  | outOfFuel

/-- Visits a node and then is done with it: the nodes being visited, the nodes done with. -/
def visit : ℕ → List κ → List κ → κ → Except (Stop κ) (List κ)
  | 0, _, _, _ => throw .outOfFuel
  | fuel + 1, visiting, done, p =>
    if p ∈ done then pure done
    else if p ∈ visiting then throw (.loop (visiting.dropWhile (· ≠ p) ++ [p]))
    else do
      let done ← (succ p).foldlM (visit fuel (visiting ++ [p])) done
      pure (add done p)

/-- Visits every root. -/
def search (fuel : ℕ) (roots : List κ) : Except (Stop κ) (List κ) :=
  roots.foldlM (visit succ fuel []) []

/-- From a node to one of its successors. -/
def Edge (p q : κ) : Prop := q ∈ succ p

variable {succ}

omit [DecidableEq κ] in
/-- A node whose successors end does not reach itself. -/
theorem not_loop_of_acc {p : κ} (h : Acc (fun q p => Edge succ p q) p) :
    ¬ TransGen (Edge succ) p p := by
  induction h with
  | intro p _ ih =>
    intro hloop
    obtain ⟨q, hq, hrest⟩ := TransGen.head'_iff.mp hloop
    exact ih q hq (TransGen.tail' hrest hq)

/-! ## What is done with ends -/

/-- The nodes done with: their successors end. -/
def Ended (succ : κ → List κ) (done : List κ) : Prop :=
  ∀ q ∈ done, Acc (fun r q => Edge succ q r) q

theorem visit_ok {fuel : ℕ} {visiting done done' : List κ} {p : κ} (hdone : Ended succ done)
    (h : visit succ fuel visiting done p = .ok done') :
    done ⊆ done' ∧ p ∈ done' ∧ Ended succ done' := by
  induction fuel generalizing visiting done done' p with
  | zero => cases h
  | succ fuel ih =>
    rw [visit] at h
    split at h
    case isTrue hp =>
      obtain rfl := Except.pure_ok.mp h
      exact ⟨List.Subset.refl _, hp, hdone⟩
    split at h
    case isTrue => cases h
    obtain ⟨after, hafter, h⟩ := Except.bind_ok.mp h
    obtain rfl := Except.pure_ok.mp h
    obtain ⟨hsub, hall, hended⟩ := List.foldlM_ok
      (fun seen x => done ⊆ x ∧ (∀ q ∈ seen, q ∈ x) ∧ Ended succ x)
      ⟨List.Subset.refl _, by simp, hdone⟩ (fun seen q x y _ hx hy => by
        obtain ⟨hsub, hq, hy⟩ := ih hx.2.2 hy
        refine ⟨List.Subset.trans hx.1 hsub, fun r hr => ?_, hy⟩
        obtain hr | hr := List.mem_append.mp hr
        · exact hsub (hx.2.1 r hr)
        · rwa [List.mem_singleton.mp hr]) hafter
    refine ⟨fun q hq => mem_add.mpr (Or.inl (hsub hq)), mem_add.mpr (Or.inr rfl), fun q hq => ?_⟩
    obtain hq | rfl := mem_add.mp hq
    · exact hended q hq
    · exact ⟨_, fun r hr => hended r (hall r hr)⟩

/-- **A search that answered found every root's successors to end.** -/
theorem acc_of_search {fuel : ℕ} {roots done : List κ} (h : search succ fuel roots = .ok done) :
    ∀ p ∈ roots, Acc (fun q p => Edge succ p q) p := by
  obtain ⟨hall, hended⟩ := List.foldlM_ok (fun seen x => (∀ q ∈ seen, q ∈ x) ∧ Ended succ x)
    ⟨by simp, by simp [Ended]⟩ (fun seen q x y _ hx hy => by
      obtain ⟨hsub, hq, hy⟩ := visit_ok hx.2 hy
      refine ⟨fun r hr => ?_, hy⟩
      obtain hr | hr := List.mem_append.mp hr
      · exact hsub (hx.1 r hr)
      · rwa [List.mem_singleton.mp hr]) h
  exact fun p hp => hended p (hall p hp)

/-! ## What is refused loops -/

variable {nodes : List κ}

/-- What a search that stopped says: a loop among the nodes, or fuel that was too little. -/
theorem visit_error (hnodes : ∀ p ∈ nodes, ∀ q ∈ succ p, q ∈ nodes) {fuel : ℕ}
    {visiting done : List κ} {p : κ} {e : Stop κ} (hp : p ∈ nodes)
    (hreach : ∀ q ∈ visiting, q ∈ nodes ∧ TransGen (Edge succ) q p) (hnodup : visiting.Nodup)
    (hfuel : nodes.length < fuel + visiting.length)
    (h : visit succ fuel visiting done p = .error e) :
    (∃ path, e = .loop path) ∧ ∃ q ∈ nodes, TransGen (Edge succ) q q := by
  induction fuel generalizing visiting done p with
  | zero =>
    have := (List.subperm_of_subset hnodup fun q hq => (hreach q hq).1).length_le
    omega
  | succ fuel ih =>
    rw [visit] at h
    split at h
    case isTrue => exact (Except.pure_error.mp h).elim
    split at h
    case isTrue hvisiting =>
      cases h
      exact ⟨⟨_, rfl⟩, p, hp, (hreach p hvisiting).2⟩
    case isFalse hvisiting =>
      rcases Except.bind_error.mp h with h | ⟨_, _, h⟩
      · obtain ⟨x, q, hq, h⟩ := List.foldlM_error h
        refine ih (hnodes p hp q hq) (fun r hr => ?_) ?_ ?_ h
        · obtain hr | hr := List.mem_append.mp hr
          · exact ⟨(hreach r hr).1, (hreach r hr).2.tail hq⟩
          · rw [List.mem_singleton.mp hr]
            exact ⟨hp, TransGen.single hq⟩
        · exact List.concat_eq_append ▸ hnodup.concat hvisiting
        · rw [List.length_append, List.length_singleton]
          omega
      · exact (Except.pure_error.mp h).elim

theorem search_error (hnodes : ∀ p ∈ nodes, ∀ q ∈ succ p, q ∈ nodes) {fuel : ℕ}
    (hfuel : nodes.length < fuel) {e : Stop κ} (h : search succ fuel nodes = .error e) :
    (∃ path, e = .loop path) ∧ ∃ q ∈ nodes, TransGen (Edge succ) q q := by
  obtain ⟨_, p, hp, h⟩ := List.foldlM_error h
  exact visit_error hnodes hp (by simp) List.nodup_nil (by simpa using hfuel) h

/-- **A search refuses exactly the graphs with a loop.** -/
theorem search_ok_iff (hnodes : ∀ p ∈ nodes, ∀ q ∈ succ p, q ∈ nodes) {fuel : ℕ}
    (hfuel : nodes.length < fuel) :
    (∃ done, search succ fuel nodes = .ok done) ↔ ∀ p ∈ nodes, ¬ TransGen (Edge succ) p p := by
  constructor
  · rintro ⟨done, h⟩ p hp
    exact not_loop_of_acc (acc_of_search h p hp)
  · intro h
    cases hsearch : search succ fuel nodes with
    | ok done => exact ⟨done, rfl⟩
    | error e =>
      obtain ⟨-, q, hq, hloop⟩ := search_error hnodes hfuel hsearch
      exact absurd hloop (h q hq)

/-! ## How far a walk goes -/

omit [DecidableEq κ] in
/-- The nodes a walk left on its way to one it has not met are fewer than all. -/
theorem length_lt_of_reaches (hloop : ∀ p ∈ nodes, ¬ TransGen (Edge succ) p p)
    {left : List κ} {p : κ}
    (hp : p ∈ nodes) (hleft : ∀ q ∈ left, q ∈ nodes ∧ TransGen (Edge succ) q p)
    (hnodup : left.Nodup) : left.length < nodes.length := by
  have hnew : p ∉ left := fun hm => hloop p hp (hleft p hm).2
  have hsub : p :: left ⊆ nodes := List.cons_subset.mpr ⟨hp, fun q hq => (hleft q hq).1⟩
  exact (List.subperm_of_subset (List.nodup_cons.mpr ⟨hnew, hnodup⟩) hsub).length_le

end Search
