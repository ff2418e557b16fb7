import Mathlib.Data.List.Basic

/-!
# Machinery/Outcome — reading back a computation that may fail

A computation in `Except ε` that answered is a chain of computations that answered.  `bind_ok` peels
one link off, `foldlM_ok` runs an invariant along a loop that answered, and `foldlM_ok₂` runs two
loops over one list in lockstep.  `countP_lt_countP` is the measure by which such loops end.
-/

universe u

namespace Except

variable {ε : Type*} {α β : Type u}

/-- **Peeling one link off**: a bind answers exactly when both its halves do. -/
theorem bind_ok {x : Except ε α} {f : α → Except ε β} {b : β} :
    x >>= f = .ok b ↔ ∃ a, x = .ok a ∧ f a = .ok b := by
  cases x with
  | error e => exact ⟨(nomatch ·), fun ⟨_, h, _⟩ => nomatch h⟩
  | ok a => exact ⟨fun h => ⟨a, rfl, h⟩, fun ⟨_, h, hf⟩ => by cases h; exact hf⟩

@[simp] theorem ok_bind (a : α) (f : α → Except ε β) : Except.ok a >>= f = f a := rfl

@[simp] theorem pure_ok {a b : α} : (pure a : Except ε α) = .ok b ↔ a = b :=
  ⟨fun h => by cases h; rfl, fun h => h ▸ rfl⟩

@[simp] theorem throw_ok {e : ε} {b : α} : (throw e : Except ε α) = .ok b ↔ False :=
  ⟨(nomatch ·), False.elim⟩

/-- A bind fails where its first half fails, or where its second does. -/
theorem bind_error {x : Except ε α} {f : α → Except ε β} {e : ε} :
    x >>= f = .error e ↔ x = .error e ∨ ∃ a, x = .ok a ∧ f a = .error e := by
  cases x with
  | error e' => exact ⟨fun h => Or.inl (by cases h; rfl), fun h => h.elim (fun h => by cases h; rfl)
      fun ⟨_, h, _⟩ => nomatch h⟩
  | ok a => exact ⟨fun h => Or.inr ⟨a, rfl, h⟩, fun h => h.elim (nomatch ·)
      fun ⟨_, h, hf⟩ => by cases h; exact hf⟩

@[simp] theorem pure_error {a : α} {e : ε} : (pure a : Except ε α) = .error e ↔ False :=
  ⟨(nomatch ·), False.elim⟩

end Except

namespace List

variable {ε : Type*} {α : Type*} {β γ : Type u}

/-- Each answer of a list of computations that answered is its own. -/
theorem mapM_ok {f : α → Except ε β} {l : List α} {bs : List β} (h : l.mapM f = .ok bs) {k : ℕ}
    {b : β} (hk : bs[k]? = some b) : ∃ a, l[k]? = some a ∧ f a = .ok b := by
  induction l generalizing bs k with
  | nil =>
    obtain rfl : [] = bs := Except.pure_ok.mp h
    cases hk
  | cons a l ih =>
    rw [mapM_cons] at h
    obtain ⟨b', hb', h⟩ := Except.bind_ok.mp h
    obtain ⟨bs', hbs', h⟩ := Except.bind_ok.mp h
    obtain rfl : b' :: bs' = bs := Except.pure_ok.mp h
    cases k with
    | zero =>
      cases hk
      exact ⟨a, rfl, hb'⟩
    | succ k => exact ih hbs' hk

/-- The answers of a list of partial functions, each its own. -/
theorem mapM_some {f : α → Option β} {l : List α} {bs : List β} (h : l.mapM f = some bs) :
    Forall₂ (fun a b => f a = some b) l bs := by
  induction l generalizing bs with
  | nil =>
    cases h
    exact .nil
  | cons a l ih =>
    rw [mapM_cons] at h
    obtain ⟨b, hb, h⟩ := Option.bind_eq_some_iff.mp h
    obtain ⟨bs, hbs, h⟩ := Option.bind_eq_some_iff.mp h
    cases h
    exact .cons hb (ih hbs)

/-- …and of computations that all answered. -/
theorem mapM_oks {f : α → Except ε β} {l : List α} {bs : List β} (h : l.mapM f = .ok bs) :
    Forall₂ (fun a b => f a = .ok b) l bs := by
  induction l generalizing bs with
  | nil =>
    obtain rfl : [] = bs := Except.pure_ok.mp h
    exact .nil
  | cons a l ih =>
    rw [mapM_cons] at h
    obtain ⟨b, hb, h⟩ := Except.bind_ok.mp h
    obtain ⟨bs', hbs, h⟩ := Except.bind_ok.mp h
    obtain rfl : b :: bs' = bs := Except.pure_ok.mp h
    exact .cons hb (ih hbs)

/-- A list of computations that each answer answers. -/
theorem mapM_eq_ok {f : α → Except ε β} {g : α → β} {l : List α} (h : ∀ a ∈ l, f a = .ok (g a)) :
    l.mapM f = .ok (l.map g) := by
  induction l with
  | nil => rfl
  | cons a l ih =>
    rw [mapM_cons, h a mem_cons_self, ih fun b hb => h b (mem_cons_of_mem _ hb)]
    rfl

/-- What stands on the left of two lists in step has its counterpart. -/
theorem Forall₂.exists_right {α β : Type*} {R : α → β → Prop} {l : List α} {l' : List β}
    (h : Forall₂ R l l') {a : α} (ha : a ∈ l) : ∃ b ∈ l', R a b := by
  induction h with
  | nil => cases ha
  | cons hab _ ih =>
    obtain rfl | ha := mem_cons.mp ha
    · exact ⟨_, mem_cons_self, hab⟩
    · obtain ⟨b, hb, hr⟩ := ih ha
      exact ⟨b, mem_cons_of_mem _ hb, hr⟩

/-- **A strictly narrower test counts strictly less**, when the list tells the two apart. -/
theorem countP_lt_countP {p q : α → Bool} {l : List α} {a : α} (hqp : ∀ x, q x → p x)
    (ha : a ∈ l) (hp : p a) (hq : ¬ q a) : l.countP q < l.countP p := by
  obtain ⟨s, t, rfl⟩ := append_of_mem ha
  have hs : s.countP q ≤ s.countP p := countP_mono_left fun x _ => hqp x
  have ht : t.countP q ≤ t.countP p := countP_mono_left fun x _ => hqp x
  rw [countP_append, countP_append, countP_cons_of_pos hp, countP_cons_of_neg hq]
  omega

private theorem foldlM_ok_from {f : β → α → Except ε β} (P : List α → β → Prop) :
    ∀ {l done : List α} {init b : β}, P done init →
      (∀ d a x y, a ∈ l → P d x → f x a = .ok y → P (d ++ [a]) y) →
      l.foldlM f init = .ok b → P (done ++ l) b
  | [], done, init, b, h0, _, h => by
    obtain rfl : init = b := Except.pure_ok.mp h
    simpa using h0
  | a :: l, done, init, b, h0, hs, h => by
    rw [foldlM_cons] at h
    obtain ⟨x, hx, hrest⟩ := Except.bind_ok.mp h
    have := foldlM_ok_from P (hs done a init x mem_cons_self h0 hx)
      (fun d a' u v ha' => hs d a' u v (mem_cons_of_mem _ ha')) hrest
    simpa using this

/-- **The invariant of a loop that answered**, over the part of the list already done. -/
theorem foldlM_ok {f : β → α → Except ε β} (P : List α → β → Prop) {l : List α} {init b : β}
    (h0 : P [] init) (hs : ∀ d a x y, a ∈ l → P d x → f x a = .ok y → P (d ++ [a]) y)
    (h : l.foldlM f init = .ok b) : P l b :=
  foldlM_ok_from P h0 hs h

/-- **Two loops over one list, in lockstep**: what relates their accumulators before relates them
after. -/
theorem foldlM_ok₂ {f : β → α → Except ε β} {g : γ → α → Except ε γ} (P : β → γ → Prop) :
    ∀ {l : List α} {x x' : β} {y y' : γ}, P x y →
      (∀ a ∈ l, ∀ u v u' v', P u v → f u a = .ok u' → g v a = .ok v' → P u' v') →
      l.foldlM f x = .ok x' → l.foldlM g y = .ok y' → P x' y'
  | [], x, x', y, y', h0, _, hf, hg => by
    obtain rfl : x = x' := Except.pure_ok.mp hf
    obtain rfl : y = y' := Except.pure_ok.mp hg
    exact h0
  | a :: l, x, x', y, y', h0, hs, hf, hg => by
    rw [foldlM_cons] at hf hg
    obtain ⟨u, hu, hf⟩ := Except.bind_ok.mp hf
    obtain ⟨v, hv, hg⟩ := Except.bind_ok.mp hg
    exact foldlM_ok₂ P (hs a mem_cons_self _ _ _ _ h0 hu hv)
      (fun a' ha' => hs a' (mem_cons_of_mem _ ha')) hf hg

/-- A loop that skips some elements is a loop over the others. -/
theorem foldlM_filterMap_of {f : β → α → Except ε β} {g : α → Option γ} {h : β → γ → Except ε β}
    (hf : ∀ s a, f s a = (g a).elim (pure s) (h s)) :
    ∀ (l : List α) (s : β), l.foldlM f s = (l.filterMap g).foldlM h s
  | [], _ => rfl
  | a :: l, s => by
    rw [foldlM_cons, hf]
    cases hg : g a with
    | none =>
      rw [filterMap_cons_none hg]
      exact foldlM_filterMap_of hf l s
    | some b =>
      rw [filterMap_cons_some hg, foldlM_cons]
      exact bind_congr fun s' => foldlM_filterMap_of hf l s'

/-- A loop of loops is a loop over what they run over. -/
theorem foldlM_flatMap_of {f : β → α → Except ε β} {g : α → List γ} {h : β → γ → Except ε β}
    (hf : ∀ s a, f s a = (g a).foldlM h s) :
    ∀ (l : List α) (s : β), l.foldlM f s = (l.flatMap g).foldlM h s
  | [], _ => rfl
  | a :: l, s => by
    rw [foldlM_cons, hf, flatMap_cons, foldlM_append]
    exact bind_congr fun s' => foldlM_flatMap_of hf l s'

/-- A loop that failed failed at one of its steps. -/
theorem foldlM_error {f : β → α → Except ε β} {e : ε} :
    ∀ {l : List α} {init : β}, l.foldlM f init = .error e → ∃ x, ∃ a ∈ l, f x a = .error e
  | [], _, h => (Except.pure_error.mp h).elim
  | a :: l, init, h => by
    rw [foldlM_cons] at h
    rcases Except.bind_error.mp h with h | ⟨x, _, h⟩
    · exact ⟨init, a, mem_cons_self, h⟩
    · obtain ⟨x, b, hb, hx⟩ := foldlM_error h
      exact ⟨x, b, mem_cons_of_mem _ hb, hx⟩

/-- A short-circuiting search that failed failed at one element. -/
theorem anyM_error {p : α → Except ε Bool} {e : ε} :
    ∀ {l : List α}, l.anyM p = .error e → ∃ a ∈ l, p a = .error e
  | [], h => (Except.pure_error.mp h).elim
  | b :: l, h => by
    rw [anyM_cons] at h
    rcases Except.bind_error.mp h with h | ⟨r, _, h⟩
    · exact ⟨b, mem_cons_self, h⟩
    · cases r with
      | true => exact (Except.pure_error.mp h).elim
      | false =>
        obtain ⟨a, ha, hp⟩ := anyM_error (by simpa using h : l.anyM p = .error e)
        exact ⟨a, mem_cons_of_mem _ ha, hp⟩

/-- A short-circuiting search that answered `false` answered it everywhere. -/
theorem anyM_ok_false {p : α → Except ε Bool} :
    ∀ {l : List α}, l.anyM p = .ok false → ∀ a ∈ l, p a = .ok false
  | [], _, _, ha => absurd ha not_mem_nil
  | b :: l, h, a, ha => by
    rw [anyM_cons] at h
    obtain ⟨r, hr, hrest⟩ := Except.bind_ok.mp h
    cases r with
    | true => exact absurd (Except.pure_ok.mp hrest) (by decide)
    | false =>
      rcases mem_cons.mp ha with rfl | ha
      · exact hr
      · exact anyM_ok_false (by simpa using hrest) a ha

/-- A short-circuiting search that answered `true` found it somewhere. -/
theorem anyM_ok_true {p : α → Except ε Bool} :
    ∀ {l : List α}, l.anyM p = .ok true → ∃ a ∈ l, p a = .ok true
  | [], h => absurd (Except.pure_ok.mp h) (by decide)
  | b :: l, h => by
    rw [anyM_cons] at h
    obtain ⟨r, hr, hrest⟩ := Except.bind_ok.mp h
    cases r with
    | true => exact ⟨b, mem_cons_self, hr⟩
    | false =>
      obtain ⟨a, ha, hp⟩ := anyM_ok_true (by simpa using hrest : l.anyM p = .ok true)
      exact ⟨a, mem_cons_of_mem _ ha, hp⟩

/-- A loop that answered answered at every element. -/
theorem forM_ok {f : α → Except ε PUnit} :
    ∀ {l : List α}, l.forM f = .ok ⟨⟩ ↔ ∀ a ∈ l, f a = .ok ⟨⟩
  | [] => by simp [Except.pure_ok]
  | a :: l => by
    change (f a >>= fun _ => l.forM f) = _ ↔ _
    rw [Except.bind_ok, forall_mem_cons, ← forM_ok]
    exact ⟨fun ⟨_, ha, hl⟩ => ⟨ha, hl⟩, fun ⟨ha, hl⟩ => ⟨_, ha, hl⟩⟩

/-- A loop that failed failed at one element. -/
theorem forM_error {f : α → Except ε PUnit} {e : ε} :
    ∀ {l : List α}, l.forM f = .error e → ∃ a ∈ l, f a = .error e
  | [], h => (Except.pure_error.mp h).elim
  | a :: l, h => by
    change (f a >>= fun _ => l.forM f) = _ at h
    rcases Except.bind_error.mp h with h | ⟨_, _, h⟩
    · exact ⟨a, mem_cons_self, h⟩
    · obtain ⟨b, hb, hf⟩ := forM_error h
      exact ⟨b, mem_cons_of_mem _ hb, hf⟩

/-- A short-circuiting search only asks about its elements. -/
theorem anyM_congr {f g : α → Except ε Bool} :
    ∀ {l : List α}, (∀ a ∈ l, f a = g a) → l.anyM f = l.anyM g
  | [], _ => rfl
  | a :: l, h => by
    rw [anyM_cons, anyM_cons, h a mem_cons_self]
    refine bind_congr fun r => ?_
    rw [anyM_congr fun b hb => h b (mem_cons_of_mem _ hb)]

/-- **A search of questions that fail with `e` or agree** fails with `e` or agrees. -/
theorem anyM_or {f g : α → Except ε Bool} {e : ε} :
    ∀ {l : List α}, (∀ a ∈ l, f a = .error e ∨ f a = g a) →
      l.anyM f = .error e ∨ l.anyM f = l.anyM g
  | [], _ => Or.inr rfl
  | a :: l, h => by
    rw [anyM_cons, anyM_cons]
    obtain ha | ha := h a mem_cons_self
    · exact Or.inl (by rw [ha]; rfl)
    · rw [ha]
      cases hg : g a with
      | error e' => exact Or.inr rfl
      | ok r =>
        cases r with
        | true => exact Or.inr rfl
        | false => exact anyM_or (l := l) fun b hb => h b (mem_cons_of_mem _ hb)

/-- A search that found nothing found nothing anywhere. -/
theorem findSomeM?_ok_none {f : α → Except ε (Option β)} :
    ∀ {l : List α}, l.findSomeM? f = .ok none → ∀ a ∈ l, f a = .ok none
  | [], _, _, ha => absurd ha not_mem_nil
  | b :: l, h, a, ha => by
    rw [findSomeM?_cons] at h
    obtain ⟨r, hr, hrest⟩ := Except.bind_ok.mp h
    cases r with
    | some b => cases hrest
    | none =>
      rcases mem_cons.mp ha with rfl | ha
      · exact hr
      · exact findSomeM?_ok_none hrest a ha

/-- A search that failed failed at one element. -/
theorem findSomeM?_error {f : α → Except ε (Option β)} {e : ε} :
    ∀ {l : List α}, l.findSomeM? f = .error e → ∃ a ∈ l, f a = .error e
  | [], h => (Except.pure_error.mp h).elim
  | b :: l, h => by
    rw [findSomeM?_cons] at h
    rcases Except.bind_error.mp h with h | ⟨r, _, h⟩
    · exact ⟨b, mem_cons_self, h⟩
    · cases r with
      | some b => cases h
      | none =>
        obtain ⟨a, ha, hf⟩ := findSomeM?_error h
        exact ⟨a, mem_cons_of_mem _ ha, hf⟩

end List
