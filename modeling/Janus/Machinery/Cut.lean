import Janus.Machinery.Outcome
import Mathlib.Data.Nat.Find

/-!
# Machinery/Cut — derivations with one premise, and the search that cuts its own path

A goal is derived at once (`base`) or from one other goal it leads to (`edge`).  A search that
follows the edges and gives up on a goal already on its path looks only for derivations that meet no
goal twice on a branch.  It misses nothing (`derives_iff_avoiding`): a derivation of least height
meets no goal twice.

Of derivations whose steps either stay among few goals or cross to others, the height is bounded by
how often one crosses (`Within.exists_height`).
-/

namespace Cut

variable {α : Type*} (base : α → Prop) (edge : α → α → Prop)

/-- Derived at once, or from something it leads to. -/
inductive Derives : α → Prop
  | base {a : α} : base a → Derives a
  | step {a b : α} : edge a b → Derives b → Derives a

/-- …by a derivation that meets nothing on `path`, and nothing twice. -/
inductive Avoiding : List α → α → Prop
  | base {path : List α} {a : α} : a ∉ path → base a → Avoiding path a
  | step {path : List α} {a b : α} :
      a ∉ path → edge a b → Avoiding (a :: path) b → Avoiding path a

/-- …by a derivation of a given height. -/
inductive DerivesIn : ℕ → α → Prop
  | base {a : α} : base a → DerivesIn 0 a
  | step {n : ℕ} {a b : α} : edge a b → DerivesIn n b → DerivesIn (n + 1) a

variable {base edge}

theorem Avoiding.notMem {path : List α} {a : α} (h : Avoiding base edge path a) : a ∉ path := by
  cases h with
  | base h _ => exact h
  | step h _ _ => exact h

theorem Avoiding.derives {path : List α} {a : α} (h : Avoiding base edge path a) :
    Derives base edge a := by
  induction h with
  | base _ hb => exact .base hb
  | step _ he _ ih => exact .step he ih

theorem Derives.exists_height {a : α} (h : Derives base edge a) :
    ∃ n, DerivesIn base edge n a := by
  induction h with
  | base hb => exact ⟨0, .base hb⟩
  | step he _ ih =>
    obtain ⟨n, hn⟩ := ih
    exact ⟨n + 1, .step he hn⟩

/-- **A least derivation meets nothing twice**: when nothing on the path is derived within height
`n`, what is derived within height `n` is derived off the path. -/
theorem DerivesIn.avoiding {n : ℕ} {path : List α} {a : α} (h : DerivesIn base edge n a)
    (hpath : ∀ x ∈ path, ∀ m ≤ n, ¬ DerivesIn base edge m x) : Avoiding base edge path a := by
  classical
  induction n using Nat.strong_induction_on generalizing path a with
  | _ n ih =>
    have hex : ∃ m, DerivesIn base edge m a := ⟨n, h⟩
    have hle : Nat.find hex ≤ n := Nat.find_le h
    have hnot : a ∉ path := fun ha => hpath a ha n le_rfl h
    have hleast := Nat.find_spec hex
    have hmin : ∀ m < Nat.find hex, ¬ DerivesIn base edge m a := fun m hm => Nat.find_min hex hm
    generalize Nat.find hex = k at hle hleast hmin
    cases hleast with
    | base hb => exact .base hnot hb
    | @step m _ b he hb =>
      refine .step hnot he (ih m (by omega) hb fun x hx l hl => ?_)
      rcases List.mem_cons.mp hx with rfl | hx
      · exact hmin l (by omega)
      · exact hpath x hx l (by omega)

/-- **The cut loses nothing.** -/
theorem derives_iff_avoiding {a : α} : Derives base edge a ↔ Avoiding base edge [] a := by
  refine ⟨fun h => ?_, Avoiding.derives⟩
  obtain ⟨n, hn⟩ := h.exists_height
  exact hn.avoiding fun x hx => absurd hx List.not_mem_nil

/-- **A path that cuts itself runs out of goals**: each goal taken leaves fewer to take. -/
theorem countP_notMem_cons_lt [DecidableEq α] {goals path : List α} {a : α} (hg : a ∈ goals)
    (hp : a ∉ path) :
    goals.countP (fun x => decide (x ∉ a :: path)) < goals.countP (fun x => decide (x ∉ path)) :=
  List.countP_lt_countP (a := a) (by simp) hg (by simpa using hp) (by simp)

/-- More ways at once and more edges derive more. -/
theorem Derives.mono {base' : α → Prop} {edge' : α → α → Prop} (hb : ∀ a, base a → base' a)
    (he : ∀ a b, edge a b → edge' a b) {a : α} (h : Derives base edge a) :
    Derives base' edge' a := by
  induction h with
  | base h => exact .base (hb _ h)
  | step h _ ih => exact .step (he _ _ h) ih

theorem DerivesIn.derives {n : ℕ} {a : α} (h : DerivesIn base edge n a) : Derives base edge a := by
  induction h with
  | base h => exact .base h
  | step h _ ih => exact .step h ih

/-- Goals elsewhere, derived as these are. -/
theorem DerivesIn.map {β : Type*} {base' : β → Prop} {edge' : β → β → Prop} (f : α → β)
    (hb : ∀ a, base a → base' (f a))
    (he : ∀ a b, edge a b → Derives base edge b → edge' (f a) (f b)) {n : ℕ} {a : α}
    (h : DerivesIn base edge n a) : DerivesIn base' edge' n (f a) := by
  induction h with
  | base h => exact .base (hb _ h)
  | step h hd ih => exact .step (he _ _ h hd.derives) ih

/-! ## Derivations by how often they cross -/

section Crossing

variable {base' : α → Prop} {flat cross : α → α → Prop}

/-- A derivation that meets nothing twice has no more steps than there are goals to step from. -/
theorem Avoiding.exists_height [DecidableEq α] {C : α → Prop} {goals path : List α} {a : α}
    (hC : ∀ {x y}, C x → edge x y → x ∈ goals ∧ C y) (ha : C a) (h : Avoiding base edge path a) :
    ∃ n ≤ goals.countP (fun x => decide (x ∉ path)), DerivesIn base edge n a := by
  induction h with
  | base _ hb => exact ⟨0, Nat.zero_le _, .base hb⟩
  | step hnot he _ ih =>
    obtain ⟨hmem, hb⟩ := hC ha he
    obtain ⟨n, hn, hd⟩ := ih hb
    exact ⟨n + 1, Nat.lt_of_le_of_lt hn (countP_notMem_cons_lt hmem hnot), .step he hd⟩

/-- …and so nothing derived among them takes more. -/
theorem Derives.exists_height_le [DecidableEq α] {C : α → Prop} {goals : List α} {a : α}
    (hC : ∀ {x y}, C x → edge x y → x ∈ goals ∧ C y) (ha : C a) (h : Derives base edge a) :
    ∃ n ≤ goals.length, DerivesIn base edge n a := by
  obtain ⟨n, hn, hd⟩ := (derives_iff_avoiding.mp h).exists_height hC ha
  exact ⟨n, Nat.le_trans hn List.countP_le_length, hd⟩

/-- A derivation from goals that have derivations of their own. -/
theorem DerivesIn.append {n K : ℕ} {a : α} (h : DerivesIn base' flat n a)
    (hedge : ∀ x y, flat x y → edge x y)
    (hbase : ∀ b, base' b → ∃ m < K, DerivesIn base edge m b) :
    ∃ m < K + n, DerivesIn base edge m a := by
  induction h with
  | base hb => exact hbase _ hb
  | step he _ ih =>
    obtain ⟨m, hm, hd⟩ := ih
    exact ⟨m + 1, Nat.add_lt_add_right hm 1, .step (hedge _ _ he) hd⟩

variable (base flat cross)

/-- Derived by steps of which at most `n` cross. -/
def Within : ℕ → α → Prop
  | 0 => Derives base flat
  | n + 1 => Derives (fun a => base a ∨ ∃ b, cross a b ∧ Within n b) flat

variable {base flat cross} {n : ℕ} {a b : α}

theorem Within.of_base (h : base a) : Within base flat cross n a := by
  cases n with
  | zero => exact .base h
  | succ n => exact .base (Or.inl h)

theorem Within.of_flat (h : flat a b) (hb : Within base flat cross n b) :
    Within base flat cross n a := by
  cases n with
  | zero => exact .step h hb
  | succ n => exact .step h hb

theorem Within.of_cross (h : cross a b) (hb : Within base flat cross n b) :
    Within base flat cross (n + 1) a :=
  .base (Or.inr ⟨b, h, hb⟩)

/-- **The height of a derivation is bounded by how often it crosses**, where no more than `N` steps
in a row need not. -/
theorem Within.exists_height {N : ℕ}
    (hflat : ∀ (B : α → Prop) a, Derives B flat a → ∃ m ≤ N, DerivesIn B flat m a)
    (h : Within base flat cross n a) :
    ∃ m < (n + 1) * (N + 1), DerivesIn base (fun x y => flat x y ∨ cross x y) m a := by
  induction n generalizing a with
  | zero =>
    obtain ⟨m, hm, hd⟩ := hflat _ a h
    obtain ⟨k, hk, hd⟩ := hd.append (K := 1) (fun _ _ => Or.inl) fun b hb =>
      ⟨0, Nat.one_pos, .base hb⟩
    exact ⟨k, by omega, hd⟩
  | succ n ih =>
    obtain ⟨m, hm, hd⟩ := hflat _ a h
    obtain ⟨k, hk, hd⟩ := hd.append (K := (n + 1) * (N + 1) + 1) (fun _ _ => Or.inl) fun b hb => by
      obtain hb | ⟨c, hcross, hc⟩ := hb
      · exact ⟨0, Nat.succ_pos _, .base hb⟩
      · obtain ⟨k, hk, hd⟩ := ih hc
        exact ⟨k + 1, Nat.succ_lt_succ hk, .step (Or.inr hcross) hd⟩
    refine ⟨k, ?_, hd⟩
    have hlevel : (n + 1 + 1) * (N + 1) = (n + 1) * (N + 1) + (N + 1) := Nat.succ_mul ..
    omega

theorem Within.derives (h : Within base flat cross n a) :
    Derives base (fun x y => flat x y ∨ cross x y) a := by
  induction n generalizing a with
  | zero => exact h.mono (fun _ => id) fun _ _ => Or.inl
  | succ n ih =>
    rw [Within] at h
    induction h with
    | base hb =>
      obtain hb | ⟨b, hcross, hb⟩ := hb
      · exact .base hb
      · exact .step (Or.inr hcross) (ih hb)
    | step he _ ihd => exact .step (Or.inl he) ihd

end Crossing

end Cut
