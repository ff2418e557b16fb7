import Mathlib.Logic.Function.Basic
import Mathlib.Data.List.Induction
import Mathlib.Order.Basic

/-!
# Machinery/Calls — programs that call a shared state, one atomic call at a time

A **service** is a state answering calls atomically, and the programs that call it.  A **run** is
any interleaving of any number of them: a program begins, one of them has its next call answered, or
the state drifts by itself.

A **protocol** says what each program does by the answers it is given alone, as steps between
phases.  `Protocol.run` is the one induction over interleavings: what holds of the state, the log
and everybody's phase, and is kept by every phase step, holds after every run.
-/

namespace Calls

/-! ## Programs -/

/-- A program: ended, or waiting for the answer of a call. -/
inductive Prog (C : Type) (R : C → Type) (ε α : Type) where
  | done (r : Except ε α)
  | call (c : C) (k : R c → Prog C R ε α)

variable {C : Type} {R : C → Type} {ε α β : Type}

namespace Prog

/-- One program after the other; a failure ends both. -/
protected def bind : Prog C R ε α → (α → Prog C R ε β) → Prog C R ε β
  | .done (.ok a), f => f a
  | .done (.error e), _ => .done (.error e)
  | .call c k, f => .call c fun r => (k r).bind f

instance : Monad (Prog C R ε) where
  pure a := .done (.ok a)
  bind := Prog.bind

theorem bind_assoc {γ : Type} (x : Prog C R ε α) (f : α → Prog C R ε β) (g : β → Prog C R ε γ) :
    (x.bind f).bind g = x.bind fun a => (f a).bind g := by
  induction x with
  | done r => cases r <;> rfl
  | call c k ih => exact congrArg (Prog.call c) (funext fun r => ih r)

/-- A failure. -/
def fail (e : ε) : Prog C R ε α := .done (.error e)

/-- One call. -/
def perform (c : C) : Prog C R ε (R c) := .call c fun r => .done (.ok r)

/-- A program whose failure is an answer. -/
def attempt : Prog C R ε α → Prog C R ε (Except ε α)
  | .done r => .done (.ok r)
  | .call c k => .call c fun r => (k r).attempt

/-- A program, and `f` after it however it ends. -/
def ensure (x : Prog C R ε α) (f : Prog C R ε Unit) : Prog C R ε α :=
  x.attempt.bind fun r => f.bind fun _ => .done r

end Prog

/-! ## Services and their runs -/

/-- A state answering calls, drifting by itself, and the programs that call it. -/
structure Service (C : Type) (R : C → Type) (W E F ε α : Type) where
  exec : (c : C) → W → R c × W
  drift : E → W → W
  code : F → Prog C R ε α

/-- What a run leaves in its log, in order. -/
inductive Entry (C : Type) (R : C → Type) (F ε α : Type) where
  | began (i : ℕ) (f : F)
  | called (i : ℕ) (c : C) (r : R c)
  | ended (i : ℕ) (r : Except ε α)

/-- A state, the programs that began, each as it stands, and the log. -/
structure Sys (C : Type) (R : C → Type) (W F ε α : Type) where
  world : W
  threads : List (F × Prog C R ε α)
  log : List (Entry C R F ε α)

/-- A move of a run. -/
inductive Move (E F : Type) where
  | begin (f : F)
  | step (i : ℕ)
  | drift (e : E)

variable {W E F : Type}

/-- The entry of a program that ended. -/
def ending (i : ℕ) : Prog C R ε α → List (Entry C R F ε α)
  | .done r => [.ended i r]
  | .call .. => []

namespace Service

variable (S : Service C R W E F ε α)

/-- One move. -/
def move (s : Sys C R W F ε α) : Move E F → Sys C R W F ε α
  | .begin f =>
    { s with
      threads := s.threads ++ [(f, S.code f)]
      log := (s.log ++ [.began s.threads.length f]) ++ ending s.threads.length (S.code f) }
  | .step i =>
    match s.threads[i]? with
    | some (f, .call c k) =>
      let answer := S.exec c s.world
      { world := answer.2
        threads := s.threads.set i (f, k answer.1)
        log := (s.log ++ [.called i c answer.1]) ++ ending i (k answer.1) }
    | _ => s
  | .drift e => { s with world := S.drift e s.world }

/-- A run from a state nobody calls yet. -/
def run (w : W) (moves : List (Move E F)) : Sys C R W F ε α := moves.foldl S.move ⟨w, [], []⟩

theorem run_append (w : W) (moves more : List (Move E F)) :
    S.run w (moves ++ more) = more.foldl S.move (S.run w moves) := List.foldl_append

end Service

/-- The program a move begins. -/
def Move.flow : Move E F → Option F
  | .begin f => some f
  | _ => none

/-- **The programs that began, in order.** -/
theorem Service.map_fst_threads (S : Service C R W E F ε α) (w : W) (moves : List (Move E F)) :
    (S.run w moves).threads.map Prod.fst = moves.filterMap Move.flow := by
  induction moves using List.reverseRecOn with
  | nil => rfl
  | append_singleton moves mv ih =>
    rw [S.run_append, List.foldl_cons, List.foldl_nil, List.filterMap_append, ← ih,
      Service.move.eq_def]
    cases mv with
    | drift e => simp [Move.flow]
    | begin f => simp [Move.flow]
    | step i =>
      dsimp only
      split
      case h_1 f c k hi =>
        have hget : ((S.run w moves).threads.map Prod.fst)[i]? = some f := by simp [hi]
        have hlt := (List.getElem?_eq_some_iff.mp hget).1
        have hval := (List.getElem?_eq_some_iff.mp hget).2
        rw [List.map_set, ← hval, List.set_getElem_self]
        simp [Move.flow]
      case h_2 => simp [Move.flow]

/-! ## How many calls a program makes -/

/-- A program that ends within `n` calls, whatever it is answered. -/
def EndsIn : ℕ → Prog C R ε α → Prop
  | _, .done _ => True
  | 0, .call .. => False
  | n + 1, .call _ k => ∀ r, EndsIn n (k r)

section EndsIn

variable {n k : ℕ}

theorem EndsIn.mono {x : Prog C R ε α} (h : EndsIn n x) (hle : n ≤ k) : EndsIn k x := by
  induction x generalizing n k with
  | done r => cases k <;> trivial
  | call c next ih =>
    obtain _ | n := n
    · exact h.elim
    · obtain ⟨k, rfl⟩ := Nat.exists_eq_add_of_le hle
      rw [Nat.add_right_comm]
      exact fun r => ih r (h r) (Nat.le_add_right n k)

theorem EndsIn.bind {x : Prog C R ε α} {f : α → Prog C R ε β} (hx : EndsIn n x)
    (hf : ∀ a, EndsIn k (f a)) : EndsIn (n + k) (x >>= f) := by
  change EndsIn (n + k) (x.bind f)
  induction x generalizing n with
  | done r =>
    cases r with
    | ok a => exact (hf a).mono (Nat.le_add_left k n)
    | error e => cases n + k <;> trivial
  | call c next ih =>
    obtain _ | n := n
    · exact hx.elim
    · rw [Nat.add_right_comm]
      exact fun r => ih r (hx r)

theorem EndsIn.attempt {x : Prog C R ε α} (hx : EndsIn n x) : EndsIn n x.attempt := by
  induction x generalizing n with
  | done r => cases n <;> trivial
  | call c next ih =>
    obtain _ | n := n
    · exact hx.elim
    · exact fun r => ih r (hx r)

theorem EndsIn.done {r : Except ε α} : EndsIn n (.done r : Prog C R ε α) := by
  cases n <;> trivial

/-- An outcome, read where it stands. -/
theorem EndsIn.done_bind {r : Except ε α} {f : α → Prog C R ε β} (hf : ∀ a, EndsIn n (f a)) :
    EndsIn n (.done r >>= f) := by
  cases r with
  | ok a => exact hf a
  | error e => exact EndsIn.done

theorem EndsIn.perform {c : C} : EndsIn 1 (Prog.perform c : Prog C R ε (R c)) := fun _ => trivial

/-- The move answers the next call of this program. -/
def Move.steps (i : ℕ) : Move E F → Bool
  | .step j => j = i
  | _ => false

variable (S : Service C R W E F ε α) {s : Sys C R W F ε α} {i : ℕ} {f : F}

/-- Another program's move leaves this one where it stands. -/
theorem Service.threads_of_not_steps {x : Prog C R ε α} (hi : s.threads[i]? = some (f, x))
    {mv : Move E F} (hmv : mv.steps i = false) : (S.move s mv).threads[i]? = some (f, x) := by
  cases mv with
  | begin g => rwa [Service.move, List.getElem?_append_left (List.getElem?_eq_some_iff.mp hi).1]
  | drift e => exact hi
  | step j =>
    rw [Service.move]
    split
    · rwa [List.getElem?_set_ne (of_decide_eq_false hmv)]
    · exact hi

/-- **A program that ends within `n` calls has ended once `n` of its calls were answered**, whatever
runs beside it. -/
theorem Service.ends {x : Prog C R ε α} (hi : s.threads[i]? = some (f, x)) (hx : EndsIn n x)
    {moves : List (Move E F)} (hmoves : n ≤ moves.countP (·.steps i)) :
    ∃ r, (moves.foldl S.move s).threads[i]? = some (f, .done r) := by
  induction moves generalizing s x n with
  | nil =>
    obtain rfl := Nat.le_zero.mp hmoves
    cases x with
    | done r => exact ⟨r, hi⟩
    | call c next => exact hx.elim
  | cons mv moves ih =>
    cases hmv : mv.steps i with
    | false =>
      rw [List.countP_cons_of_neg (by simp [hmv])] at hmoves
      exact ih (S.threads_of_not_steps hi hmv) hx hmoves
    | true =>
      rw [List.countP_cons_of_pos hmv] at hmoves
      obtain ⟨j, rfl⟩ : ∃ j, mv = .step j := by cases mv <;> simp [Move.steps] at hmv ⊢
      obtain rfl : j = i := of_decide_eq_true hmv
      cases x with
      | done r =>
        have hstays : (S.move s (.step j)).threads[j]? = some (f, .done r) := by
          rw [Service.move, hi]
          exact hi
        exact ih hstays (n := 0) EndsIn.done (Nat.zero_le _)
      | call c next =>
        obtain _ | n := n
        · exact hx.elim
        · refine ih (x := next (S.exec c s.world).1) ?_ (hx _) (Nat.le_of_succ_le_succ hmoves)
          rw [Service.move, hi]
          exact List.getElem?_set_self (List.getElem?_eq_some_iff.mp hi).1

end EndsIn

/-- One entry more: an entry of the log is the last, or it was there. -/
theorem concat_eq_append_cons {τ : Type} {log l₁ l₂ : List τ} {e e' : τ}
    (h : log ++ [e] = l₁ ++ e' :: l₂) :
    (log = l₁ ∧ e = e') ∨ ∃ l₃, l₂ = l₃ ++ [e] ∧ log = l₁ ++ e' :: l₃ := by
  rcases List.eq_nil_or_concat l₂ with rfl | ⟨l₃, e'', rfl⟩
  · obtain ⟨hlog, he⟩ := List.append_inj' h rfl
    exact Or.inl ⟨hlog, List.head_eq_of_cons_eq he⟩
  · rw [List.concat_eq_append, ← List.cons_append, ← List.append_assoc] at h
    obtain ⟨hlog, he⟩ := List.append_inj' h rfl
    exact Or.inr ⟨l₃, by rw [List.concat_eq_append, List.head_eq_of_cons_eq he], hlog⟩

/-! ## What each entry says of those before it -/

section Tells

variable {τ σ : Type} {P : List τ → τ → Prop} {log : List τ}

/-- Each entry says `P` of the log before it. -/
def Tells (P : List τ → τ → Prop) (log : List τ) : Prop :=
  ∀ l₁ e l₂, log = l₁ ++ e :: l₂ → P l₁ e

theorem Tells.nil : Tells P [] := fun _ _ _ h => nomatch (List.append_eq_nil_iff.mp h.symm).2

theorem Tells.concat (h : Tells P log) {e : τ} (he : P log e) : Tells P (log ++ [e]) := by
  intro l₁ e' l₂ hlog
  obtain ⟨rfl, rfl⟩ | ⟨l₃, -, hold⟩ := concat_eq_append_cons hlog
  · exact he
  · exact h l₁ e' l₃ hold

/-- …the last of the log before it, the others among themselves. -/
theorem Tells.of_concat {e : τ} (h : Tells P (log ++ [e])) : Tells P log ∧ P log e :=
  ⟨fun l₁ e' l₂ hlog => h l₁ e' (l₂ ++ [e]) (by rw [hlog, List.append_assoc, List.cons_append]),
    h log e [] rfl⟩

/-- …and entries that say it of any log. -/
theorem Tells.append (h : Tells P log) {more : List τ} (hmore : ∀ l e, e ∈ more → P l e) :
    Tells P (log ++ more) := by
  induction more using List.reverseRecOn with
  | nil => rwa [List.append_nil]
  | append_singleton more e ih =>
    rw [← List.append_assoc]
    exact (ih fun l e' he' => hmore l e' (List.mem_append_left _ he')).concat
      (hmore _ e (List.mem_append_right _ (List.mem_singleton_self e)))

theorem Tells.mem (h : Tells P log) {e : τ} (he : e ∈ log) :
    ∃ l₁ l₂, log = l₁ ++ e :: l₂ ∧ P l₁ e := by
  obtain ⟨l₁, l₂, rfl⟩ := List.append_of_mem he
  exact ⟨l₁, l₂, rfl, h l₁ e l₂ rfl⟩

/-- What an entry says of every entry read before it holds of each two. -/
theorem Tells.pairwise {f : τ → Option σ} {R : σ → σ → Prop} (h : Tells P log)
    (hP : ∀ l e b, P l e → f e = some b → ∀ a ∈ l.filterMap f, R a b) :
    (log.filterMap f).Pairwise R := by
  induction log using List.reverseRecOn with
  | nil => exact List.Pairwise.nil
  | append_singleton log e ih =>
    have hlog : Tells P log := fun l₁ e' l₂ hl => h l₁ e' (l₂ ++ [e]) (by rw [hl]; simp)
    rw [List.filterMap_append, List.pairwise_append]
    refine ⟨ih hlog, ?_, fun a ha b hb => ?_⟩
    · cases he : f e <;> simp [he]
    · obtain ⟨e', he', hf⟩ := List.mem_filterMap.mp hb
      cases List.mem_singleton.mp he'
      exact hP log e b (h log e [] rfl) hf a ha

end Tells

/-! ### Who began first -/

/-- Whose entry it is. -/
def Entry.thread : Entry C R F ε α → ℕ
  | .began i _ | .called i _ _ | .ended i _ => i

theorem of_mem_ending {i : ℕ} {x : Prog C R ε α} {e : Entry C R F ε α} (h : e ∈ ending i x) :
    e.thread = i ∧ ∀ j f, e ≠ .began j f := by
  cases x with
  | done r =>
    cases List.mem_singleton.mp h
    exact ⟨rfl, nofun⟩
  | call c k => cases h

/-- Every entry is of a program that began, and nothing of it comes before its beginning. -/
structure Orderly (s : Sys C R W F ε α) : Prop where
  known : ∀ e ∈ s.log, e.thread < s.threads.length
  first : Tells (fun l e => ∀ i f, e = .began i f → ∀ e' ∈ l, e'.thread ≠ i) s.log

theorem Orderly.move (S : Service C R W E F ε α) {s : Sys C R W F ε α} (h : Orderly s)
    (mv : Move E F) : Orderly (S.move s mv) := by
  cases mv with
  | drift e => exact ⟨h.known, h.first⟩
  | begin f =>
    refine ⟨fun e he => ?_, (h.first.concat ?_).append fun l e he i g heq => ?_⟩
    · rw [Service.move, List.length_append, List.length_singleton]
      obtain he | he := List.mem_append.mp he
      · obtain he | he := List.mem_append.mp he
        · exact Nat.lt_succ_of_lt (h.known e he)
        · cases List.mem_singleton.mp he
          exact Nat.lt_succ_self _
      · exact (of_mem_ending he).1 ▸ Nat.lt_succ_self _
    · rintro _ _ ⟨⟩ e' he'
      exact Nat.ne_of_lt (h.known e' he')
    · exact absurd heq ((of_mem_ending he).2 i g)
  | step i =>
    rw [Service.move]
    split
    case h_2 => exact h
    case h_1 f c k hi =>
      refine ⟨fun e he => ?_, (h.first.concat (by nofun)).append fun l e he j g heq => ?_⟩
      · rw [List.length_set]
        obtain he | he := List.mem_append.mp he
        · obtain he | he := List.mem_append.mp he
          · exact h.known e he
          · cases List.mem_singleton.mp he
            exact (List.getElem?_eq_some_iff.mp hi).1
        · exact (of_mem_ending he).1 ▸ (List.getElem?_eq_some_iff.mp hi).1
      · exact absurd heq ((of_mem_ending he).2 j g)

/-- **Nothing of a program comes before its beginning.** -/
theorem Service.orderly (S : Service C R W E F ε α) (w : W) (moves : List (Move E F)) :
    Orderly (S.run w moves) := by
  induction moves using List.reverseRecOn with
  | nil => exact ⟨nofun, Tells.nil⟩
  | append_singleton moves mv ih =>
    rw [S.run_append]
    exact ih.move S mv

/-- A program begins once. -/
theorem Orderly.unique {s : Sys C R W F ε α} (h : Orderly s) {i : ℕ} {f g : F}
    (hf : .began i f ∈ s.log) (hg : .began i g ∈ s.log) : f = g := by
  obtain ⟨l₁, l₂, hlog⟩ := List.append_of_mem hf
  rw [hlog] at hg
  obtain hg | hg := List.mem_append.mp hg
  · exact absurd rfl (h.first l₁ _ l₂ hlog i f rfl _ hg)
  · cases hg with
    | head => rfl
    | tail _ hg =>
      obtain ⟨l₃, l₄, rfl⟩ := List.append_of_mem hg
      have hfirst := h.first (l₁ ++ .began i f :: l₃) (.began i g) l₄
        (by rw [hlog, List.append_assoc, List.cons_append])
      exact absurd rfl (hfirst i g rfl _ (List.mem_append_right _ List.mem_cons_self))

/-- Whoever stands somewhere after one moved is the one, or stood there. -/
theorem update_eq_some {τ : Type} {m : ℕ → Option τ} {i j : ℕ} {x y : τ} :
    Function.update m i (some x) j = some y ↔ j = i ∧ x = y ∨ j ≠ i ∧ m j = some y := by
  rw [Function.update_apply]
  by_cases h : j = i <;> simp [h]

/-! ### Every program answers -/

section Answers

variable (S : Service C R W E F ε α) {n : ℕ}

/-- What is left of a program ends as soon as the program does, and its end is in the log. -/
theorem Service.endsIn (hcode : ∀ f, EndsIn n (S.code f)) (w : W) (moves : List (Move E F)) :
    ∀ i f x, (S.run w moves).threads[i]? = some (f, x) →
      EndsIn n x ∧ ∀ r, x = .done r → .ended i r ∈ (S.run w moves).log := by
  induction moves using List.reverseRecOn with
  | nil =>
    intro i f x hi
    cases hi
  | append_singleton moves mv ih =>
    have hending : ∀ {log : List (Entry C R F ε α)} {i : ℕ} {x : Prog C R ε α} {r : Except ε α},
        x = .done r → .ended i r ∈ log ++ ending i x := by
      rintro log i _ r rfl
      exact List.mem_append_right _ (List.mem_singleton_self _)
    rw [S.run_append, List.foldl_cons, List.foldl_nil, Service.move.eq_def]
    intro i f x hi
    cases mv with
    | drift e => exact ih i f x hi
    | begin g =>
      rw [List.getElem?_append] at hi
      split at hi
      · obtain ⟨hends, hnoted⟩ := ih i f x hi
        exact ⟨hends, fun r hr => List.mem_append_left _ (List.mem_append_left _ (hnoted r hr))⟩
      · rw [List.getElem?_singleton] at hi
        split at hi <;> cases hi
        obtain rfl : i = (S.run w moves).threads.length := by omega
        exact ⟨hcode _, fun r hr => hending hr⟩
    | step j =>
      dsimp only at hi ⊢
      split at hi
      case h_2 => exact ih i f x hi
      case h_1 g c k hj =>
        by_cases hij : j = i
        · subst hij
          rw [List.getElem?_set_self (List.getElem?_eq_some_iff.mp hj).1] at hi
          cases hi
          refine ⟨?_, fun r hr => hending hr⟩
          obtain ⟨hends, -⟩ := ih j _ _ hj
          obtain _ | n := n
          · exact hends.elim
          · exact (hends _).mono (Nat.le_succ n)
        · rw [List.getElem?_set_ne hij] at hi
          obtain ⟨hends, hnoted⟩ := ih i f x hi
          exact ⟨hends, fun r hr => List.mem_append_left _ (List.mem_append_left _ (hnoted r hr))⟩

/-- **Whoever began has ended once `n` more of its calls were answered**, of programs that end
within `n`. -/
theorem Service.answers (hcode : ∀ f, EndsIn n (S.code f)) (w : W) (moves more : List (Move E F))
    {i : ℕ} {f : F} (hi : .began i f ∈ (S.run w moves).log) (hmore : n ≤ more.countP (·.steps i)) :
    ∃ r, .ended i r ∈ (S.run w (moves ++ more)).log := by
  have hlt := (S.orderly w moves).known _ hi
  obtain ⟨⟨g, x⟩, hthread⟩ : ∃ e, (S.run w moves).threads[i]? = some e :=
    ⟨_, List.getElem?_eq_getElem hlt⟩
  obtain ⟨r, hr⟩ := S.ends hthread (S.endsIn hcode w moves i g x hthread).1 hmore
  rw [← S.run_append] at hr
  exact ⟨r, (S.endsIn hcode w (moves ++ more) i g _ hr).2 r rfl⟩

end Answers

/-! ### What is left of a program -/

/-- **What is left of a program**, once its calls were given some answers. -/
inductive After : Prog C R ε α → List ((c : C) × R c) → Prog C R ε α → Prop
  | nil {x : Prog C R ε α} : After x [] x
  | cons {c : C} {k : R c → Prog C R ε α} {r : R c} {answers : List ((c : C) × R c)}
      {x : Prog C R ε α} (h : After (k r) answers x) : After (.call c k) (⟨c, r⟩ :: answers) x

/-- One answer more. -/
theorem After.concat {x : Prog C R ε α} {answers : List ((c : C) × R c)} {c : C}
    {k : R c → Prog C R ε α} (h : After x answers (.call c k)) (r : R c) :
    After x (answers ++ [⟨c, r⟩]) (k r) := by
  generalize hy : Prog.call c k = y at h
  induction h with
  | nil => exact hy ▸ .cons .nil
  | cons _ ih => exact .cons (ih hy)

/-- Of a program after another, what is left of the first, unless it answered. -/
theorem After.bind_cases {x : Prog C R ε α} {f : α → Prog C R ε β}
    {answers : List ((c : C) × R c)} {z : Prog C R ε β} (h : After (x >>= f) answers z) :
    (∃ y, After x answers y ∧ ∀ a, y ≠ .done (.ok a)) ∨
      ∃ before rest a, answers = before ++ rest ∧ After x before (.done (.ok a)) := by
  change After (x.bind f) answers z at h
  induction x generalizing answers with
  | done r =>
    cases r with
    | ok a => exact Or.inr ⟨[], answers, a, rfl, .nil⟩
    | error e =>
      cases h
      exact Or.inl ⟨_, .nil, by nofun⟩
  | call c k ih =>
    cases h with
    | nil => exact Or.inl ⟨_, .nil, by nofun⟩
    | @cons _ _ r _ _ h =>
      obtain ⟨y, hy, hne⟩ | ⟨before, rest, a, rfl, ha⟩ := ih r h
      · exact Or.inl ⟨y, .cons hy, hne⟩
      · exact Or.inr ⟨_ :: before, rest, a, rfl, .cons ha⟩

/-- The answer an entry gives a program. -/
def Entry.answer (i : ℕ) : Entry C R F ε α → Option ((c : C) × R c)
  | .called j c r => if j = i then some ⟨c, r⟩ else none
  | _ => none

/-- The answers a program was given, in order. -/
def answersTo (i : ℕ) (log : List (Entry C R F ε α)) : List ((c : C) × R c) :=
  log.filterMap (Entry.answer i)

section AnswersTo

variable {i : ℕ} {log : List (Entry C R F ε α)}

theorem mem_answersTo {c : C} {r : R c} :
    ⟨c, r⟩ ∈ answersTo i log ↔ .called i c r ∈ log := by
  rw [answersTo, List.mem_filterMap]
  constructor
  · rintro ⟨e, he, h⟩
    cases e with
    | began | ended => cases h
    | called j c' r' =>
      rw [Entry.answer] at h
      split at h
      · subst_vars
        cases h
        exact he
      · cases h
  · exact fun h => ⟨_, h, if_pos rfl⟩

theorem answersTo_ending {j : ℕ} {x : Prog C R ε α} : answersTo i (log ++ ending j x) =
    answersTo i log := by
  rw [answersTo, List.filterMap_append]
  cases x <;> exact List.append_nil _

theorem answersTo_called {j : ℕ} {c : C} {r : R c} : answersTo i (log ++ [.called j c r]) =
    answersTo i log ++ if j = i then [⟨c, r⟩] else [] := by
  rw [answersTo, List.filterMap_append]
  by_cases h : j = i <;> simp [answersTo, Entry.answer, h]

end AnswersTo

/-- **Every program stands where its answers left it.** -/
theorem Service.after (S : Service C R W E F ε α) (w : W) (moves : List (Move E F)) :
    ∀ i f x, (S.run w moves).threads[i]? = some (f, x) →
      After (S.code f) (answersTo i (S.run w moves).log) x := by
  induction moves using List.reverseRecOn with
  | nil =>
    intro i f x hi
    cases hi
  | append_singleton moves mv ih =>
    have horderly := S.orderly w moves
    rw [S.run_append, List.foldl_cons, List.foldl_nil, Service.move.eq_def]
    intro i f x hi
    cases mv with
    | drift e => exact ih i f x hi
    | begin g =>
      dsimp only at hi ⊢
      have hsame : ∀ i, answersTo i
          ((S.run w moves).log ++ [.began (S.run w moves).threads.length g]) =
            answersTo i (S.run w moves).log := fun i => by simp [answersTo, Entry.answer]
      rw [answersTo_ending, hsame]
      rw [List.getElem?_append] at hi
      split at hi
      · exact ih i f x hi
      · rw [List.getElem?_singleton] at hi
        split at hi <;> cases hi
        -- nothing was answered before it began
        have hnone : answersTo i (S.run w moves).log = [] :=
          List.eq_nil_iff_forall_not_mem.mpr fun a ha =>
            absurd (horderly.known _ (mem_answersTo.mp ha)) (by simp only [Entry.thread]; omega)
        rw [hnone]
        exact .nil
    | step j =>
      dsimp only at hi ⊢
      split at hi
      case h_2 => exact ih i f x hi
      case h_1 g c k hj =>
        rw [answersTo_ending, answersTo_called]
        by_cases hij : j = i
        · subst hij
          rw [List.getElem?_set_self (List.getElem?_eq_some_iff.mp hj).1] at hi
          cases hi
          rw [if_pos rfl]
          exact (ih j _ _ hj).concat _
        · rw [List.getElem?_set_ne hij] at hi
          rw [if_neg hij, List.append_nil]
          exact ih i f x hi

/-! ## What a program does, by the answers it is given -/

section Leads

variable {P : Type} (exec : (c : C) → W → R c × W) (Step : P → (c : C) → R c → P → Prop)

/-- From a phase, a program takes phase steps, whatever the state answers, to an end in `Q` or a
failure in `Z`. -/
def Leads : P → Prog C R ε α → (α → P → Prop) → (ε → P → Prop) → Prop
  | p, .done (.ok a), Q, _ => Q a p
  | p, .done (.error e), _, Z => Z e p
  | p, .call c k, Q, Z => ∀ w r, (exec c w).1 = r → ∃ p', Step p c r p' ∧ Leads p' (k r) Q Z

variable {exec Step} {p : P}

theorem Leads.mono {x : Prog C R ε α} {Q Q' : α → P → Prop} {Z Z' : ε → P → Prop}
    (h : Leads exec Step p x Q Z) (hQ : ∀ a p', Q a p' → Q' a p') (hZ : ∀ e p', Z e p' → Z' e p') :
    Leads exec Step p x Q' Z' := by
  induction x generalizing p with
  | done r =>
    cases r with
    | ok a => exact hQ a p h
    | error e => exact hZ e p h
  | call c k ih =>
    intro w r hr
    obtain ⟨p', hstep, hk⟩ := h w r hr
    exact ⟨p', hstep, ih _ hk⟩

/-- A program after another. -/
theorem Leads.bind {x : Prog C R ε α} {f : α → Prog C R ε β} {Q : β → P → Prop}
    {Z : ε → P → Prop} (h : Leads exec Step p x (fun a p' => Leads exec Step p' (f a) Q Z) Z) :
    Leads exec Step p (x >>= f) Q Z := by
  change Leads exec Step p (x.bind f) Q Z
  induction x generalizing p with
  | done r =>
    cases r with
    | ok a => exact h
    | error e => exact h
  | call c k ih =>
    intro w r hr
    obtain ⟨p', hstep, hk⟩ := h w r hr
    exact ⟨p', hstep, ih _ hk⟩

theorem Leads.map {x : Prog C R ε α} {f : α → β} {Q : β → P → Prop} {Z : ε → P → Prop}
    (h : Leads exec Step p x (fun a => Q (f a)) Z) : Leads exec Step p (f <$> x) Q Z :=
  Leads.bind (f := fun a => .done (.ok (f a))) h

theorem Leads.pure {a : α} {Q : α → P → Prop} {Z : ε → P → Prop} (h : Q a p) :
    Leads exec Step p (pure a : Prog C R ε α) Q Z := h

theorem Leads.fail {e : ε} {Q : α → P → Prop} {Z : ε → P → Prop} (h : Z e p) :
    Leads exec Step p (Prog.fail e : Prog C R ε α) Q Z := h

/-- An outcome, read where it stands. -/
theorem Leads.done {r : Except ε α} {Q : α → P → Prop} {Z : ε → P → Prop}
    (hQ : ∀ a, r = .ok a → Q a p) (hZ : ∀ e, r = .error e → Z e p) :
    Leads exec Step p (.done r : Prog C R ε α) Q Z := by
  cases r with
  | ok a => exact hQ a rfl
  | error e => exact hZ e rfl

/-- …an answer, known. -/
theorem Leads.ok_bind {r : Except ε α} {a : α} {f : α → Prog C R ε β} {Q : β → P → Prop}
    {Z : ε → P → Prop} (hr : r = .ok a) (h : Leads exec Step p (f a) Q Z) :
    Leads exec Step p (.done r >>= f) Q Z := by
  subst hr
  exact h

/-- One call. -/
theorem Leads.perform {c : C} {Q : R c → P → Prop} {Z : ε → P → Prop}
    (h : ∀ w r, (exec c w).1 = r → ∃ p', Step p c r p' ∧ Q r p') :
    Leads exec Step p (Prog.perform c : Prog C R ε (R c)) Q Z := h

theorem Leads.attempt {x : Prog C R ε α} {Q : Except ε α → P → Prop} {Z : ε → P → Prop}
    (h : Leads exec Step p x (fun a => Q (.ok a)) (fun e => Q (.error e))) :
    Leads exec Step p x.attempt Q Z := by
  induction x generalizing p with
  | done r =>
    cases r with
    | ok a => exact h
    | error e => exact h
  | call c k ih =>
    intro w r hr
    obtain ⟨p', hstep, hk⟩ := h w r hr
    exact ⟨p', hstep, ih _ hk⟩

/-- **A program follows other steps that mirror its own**, from any phase one of its own mirrors. -/
theorem Leads.simulate {P' : Type} {Step' : P' → (c : C) → R c → P' → Prop} {J : P → P' → Prop}
    (hstep : ∀ {p q p' c r}, J p q → Step p c r p' → ∃ q', Step' q c r q' ∧ J p' q')
    {x : Prog C R ε α} {Q : α → P → Prop} {Z : ε → P → Prop} {q : P'} (hq : J p q)
    (h : Leads exec Step p x Q Z) :
    Leads exec Step' q x (fun a q' => ∃ p', J p' q' ∧ Q a p') fun e q' =>
      ∃ p', J p' q' ∧ Z e p' := by
  induction x generalizing p q with
  | done r =>
    cases r with
    | ok a => exact ⟨p, hq, h⟩
    | error e => exact ⟨p, hq, h⟩
  | call c k ih =>
    intro w r hr
    obtain ⟨p', hp, hk⟩ := h w r hr
    obtain ⟨q', hq', hJ⟩ := hstep hq hp
    exact ⟨q', hq', ih r hJ hk⟩

theorem Leads.ensure {x : Prog C R ε α} {f : Prog C R ε Unit} {Q : α → P → Prop} {Z : ε → P → Prop}
    (h : Leads exec Step p x (fun a p' => Leads exec Step p' f (fun _ => Q a) Z)
      (fun e p' => Leads exec Step p' f (fun _ => Z e) Z)) :
    Leads exec Step p (x.ensure f) Q Z :=
  Leads.bind (Leads.attempt (h.mono (fun _ _ h => Leads.bind h) (fun _ _ h => Leads.bind h)))

end Leads

/-! ## What a program ever calls -/

/-- Every call a program makes is `Ok`, and every failure in `Z`, whatever it is answered. -/
def Only (Ok : C → Prop) (Z : ε → Prop) : Prog C R ε α → Prop
  | .done (.ok _) => True
  | .done (.error e) => Z e
  | .call c k => Ok c ∧ ∀ r, Only Ok Z (k r)

section Only

variable {Ok : C → Prop} {Z : ε → Prop}

theorem Only.pure {a : α} : Only Ok Z (pure a : Prog C R ε α) := trivial

theorem Only.fail {e : ε} (h : Z e) : Only Ok Z (Prog.fail e : Prog C R ε α) := h

theorem Only.perform {c : C} (h : Ok c) : Only Ok Z (Prog.perform c : Prog C R ε (R c)) :=
  ⟨h, fun _ => trivial⟩

/-- A failure answered is one of the failures. -/
theorem Only.done {r : Except ε α} (h : ∀ e, r = .error e → Z e) :
    Only Ok Z (.done r : Prog C R ε α) := by
  cases r with
  | ok a => trivial
  | error e => exact h e rfl

theorem Only.bind {x : Prog C R ε α} {f : α → Prog C R ε β} (hx : Only Ok Z x)
    (hf : ∀ a, Only Ok Z (f a)) : Only Ok Z (x >>= f) := by
  change Only Ok Z (x.bind f)
  induction x with
  | done r =>
    cases r with
    | ok a => exact hf a
    | error e => exact hx
  | call c k ih => exact ⟨hx.1, fun r => ih r (hx.2 r)⟩

theorem Only.map {x : Prog C R ε α} {f : α → β} (hx : Only Ok Z x) : Only Ok Z (f <$> x) :=
  Only.bind hx fun _ => trivial

theorem Only.attempt {x : Prog C R ε α} (hx : Only Ok Z x) : Only Ok Z x.attempt := by
  induction x with
  | done r => trivial
  | call c k ih => exact ⟨hx.1, fun r => ih r (hx.2 r)⟩

theorem Only.ensure {x : Prog C R ε α} {f : Prog C R ε Unit} (hx : Only Ok Z x)
    (hf : Only Ok Z f) : Only Ok Z (x.ensure f) := by
  change Only Ok Z (x.attempt.bind fun r => f.bind fun _ => .done r)
  induction x with
  | done r =>
    refine Only.bind (f := fun _ => .done r) hf fun _ => ?_
    cases r with
    | ok a => trivial
    | error e => exact hx
  | call c k ih => exact ⟨hx.1, fun r => ih r (hx.2 r)⟩

theorem Only.mono {x : Prog C R ε α} {Z' : ε → Prop} (hx : Only Ok Z x) (hZ : ∀ e, Z e → Z' e) :
    Only Ok Z' x := by
  induction x with
  | done r =>
    cases r with
    | ok a => trivial
    | error e => exact hZ e hx
  | call c k ih => exact ⟨hx.1, fun r => ih r (hx.2 r)⟩

/-- Fewer calls, fewer failures. -/
theorem Only.imp {x : Prog C R ε α} {Ok' : C → Prop} {Z' : ε → Prop} (hx : Only Ok Z x)
    (hOk : ∀ c, Ok c → Ok' c) (hZ : ∀ e, Z e → Z' e) : Only Ok' Z' x := by
  induction x with
  | done r =>
    cases r with
    | ok a => trivial
    | error e => exact hZ e hx
  | call c k ih => exact ⟨hOk c hx.1, fun r => ih r (hx.2 r)⟩

/-- A program that only makes calls that keep `J` keeps it. -/
theorem Leads.of_only {P : Type} {exec : (c : C) → W → R c × W}
    {Step : P → (c : C) → R c → P → Prop} {J : P → Prop}
    (hstep : ∀ p c r, J p → Ok c → ∃ p', Step p c r p' ∧ J p') {x : Prog C R ε α}
    (hx : Only Ok Z x) {p : P} (hp : J p) :
    Leads exec Step p x (fun _ => J) (fun e p' => Z e ∧ J p') := by
  induction x generalizing p with
  | done r =>
    cases r with
    | ok a => exact hp
    | error e => exact ⟨hx, hp⟩
  | call c k ih =>
    intro w r _
    obtain ⟨p', hp', hJ⟩ := hstep p c r hp hx.1
    exact ⟨p', hp', ih r (hx.2 r) hJ⟩

end Only

/-! ## A program alone -/

/-- **A program run alone**: the calls it makes, what it answers, and the state it leaves.  Any call
may fail, and then does nothing and ends the program. -/
inductive Runs (exec : (c : C) → W → R c × W) : Prog C R ε α → W → List C → Except ε α → W → Prop
  | done {r : Except ε α} {w : W} : Runs exec (.done r) w [] r w
  | call {c : C} {k : R c → Prog C R ε α} {w w' : W} {calls : List C} {r : Except ε α}
      (h : Runs exec (k (exec c w).1) (exec c w).2 calls r w') :
    Runs exec (.call c k) w (c :: calls) r w'
  | failed {c : C} {k : R c → Prog C R ε α} {w : W} (e : ε) :
    Runs exec (.call c k) w [c] (.error e) w

/-- A program after another, or the failure of the first. -/
theorem Runs.bind_cases {exec : (c : C) → W → R c × W} {x : Prog C R ε α} {f : α → Prog C R ε β}
    {w w' : W} {calls : List C} {r : Except ε β} (h : Runs exec (x >>= f) w calls r w') :
    (∃ a calls₁ calls₂ w₁, Runs exec x w calls₁ (.ok a) w₁ ∧ Runs exec (f a) w₁ calls₂ r w' ∧
      calls = calls₁ ++ calls₂) ∨
    ∃ e, r = .error e ∧ Runs exec x w calls (.error e) w' := by
  change Runs exec (x.bind f) w calls r w' at h
  induction x generalizing w calls with
  | done r' =>
    cases r' with
    | ok a => exact Or.inl ⟨a, [], calls, w, .done, h, rfl⟩
    | error e =>
      cases h
      exact Or.inr ⟨e, rfl, .done⟩
  | call c k ih =>
    cases h with
    | failed e => exact Or.inr ⟨e, rfl, .failed e⟩
    | call h =>
      obtain ⟨a, calls₁, calls₂, w₁, hx, hf, rfl⟩ | ⟨e, rfl, hx⟩ := ih _ h
      · exact Or.inl ⟨a, c :: calls₁, calls₂, w₁, .call hx, hf, rfl⟩
      · exact Or.inr ⟨e, rfl, .call hx⟩

/-- An outcome, read where it stands. -/
theorem Runs.done_cases {exec : (c : C) → W → R c × W} {w w' : W} {calls : List C}
    {r r' : Except ε α}
    (h : Runs exec (.done r) w calls r' w') : r' = r ∧ calls = [] ∧ w' = w := by
  cases h
  exact ⟨rfl, rfl, rfl⟩

/-- One call, answered or failed. -/
theorem Runs.perform_cases {exec : (c : C) → W → R c × W} {c : C} {w w' : W} {calls : List C}
    {r : Except ε (R c)} (h : Runs exec (Prog.perform c) w calls r w') :
    calls = [c] ∧ (r = .ok (exec c w).1 ∧ w' = (exec c w).2 ∨ (∃ e, r = .error e) ∧ w' = w) := by
  cases h with
  | failed e => exact ⟨rfl, Or.inr ⟨⟨e, rfl⟩, rfl⟩⟩
  | call h =>
    cases h
    exact ⟨rfl, Or.inl ⟨rfl, rfl⟩⟩

/-- What a program alone answers, and the state it leaves, when no call fails. -/
def Prog.eval (exec : (c : C) → W → R c × W) : Prog C R ε α → W → Except ε α × W
  | .done r, w => (r, w)
  | .call c k, w => (k (exec c w).1).eval exec (exec c w).2

/-- A program may run without a call failing. -/
theorem Runs.of_eval (exec : (c : C) → W → R c × W) (x : Prog C R ε α) (w : W) :
    ∃ calls, Runs exec x w calls (x.eval exec w).1 (x.eval exec w).2 := by
  induction x generalizing w with
  | done r => exact ⟨[], .done⟩
  | call c k ih =>
    obtain ⟨calls, h⟩ := ih (exec c w).1 (exec c w).2
    exact ⟨c :: calls, .call h⟩

section Runs

variable {exec : (c : C) → W → R c × W} {x : Prog C R ε α} {w w' : W} {calls : List C}
  {r : Except ε α} {Ok : C → Prop} {Z : ε → Prop}

/-- A program that answered made every call. -/
theorem Runs.eval_eq {a : α} (h : Runs exec x w calls (.ok a) w') :
    x.eval exec w = (.ok a, w') := by
  induction x generalizing w calls with
  | done r =>
    cases h
    rfl
  | call c k ih =>
    cases h with
    | call h => exact ih _ h

/-- One call alone is its answer. -/
theorem Prog.eval_perform {c : C} {r : R c} (h : exec c w = (r, w')) :
    (Prog.perform c : Prog C R ε (R c)).eval exec w = (.ok r, w') := by
  rw [Prog.perform, Prog.eval, h]
  rfl

/-- What follows an answer starts from the state it left. -/
theorem Prog.eval_bind {a : α} (h : x.eval exec w = (.ok a, w')) (f : α → Prog C R ε β) :
    (x >>= f).eval exec w = (f a).eval exec w' := by
  induction x generalizing w with
  | done r =>
    cases h
    rfl
  | call c k ih => exact ih _ h

/-- …and whatever comes of it, none but its own, which keep what each of them keeps. -/
theorem Runs.of_only (h : Runs exec x w calls r w') (hx : Only Ok Z x) {J : W → Prop}
    (hJ : ∀ c w, Ok c → J w → J (exec c w).2) (hw : J w) : (∀ c ∈ calls, Ok c) ∧ J w' := by
  induction x generalizing w calls with
  | done r' =>
    cases h
    exact ⟨nofun, hw⟩
  | call c k ih =>
    cases h with
    | failed e => exact ⟨fun c' hc' => List.mem_singleton.mp hc' ▸ hx.1, hw⟩
    | call h =>
      obtain ⟨hcalls, hw'⟩ := ih _ h (hx.2 _) (hJ c w hx.1 hw)
      exact ⟨List.forall_mem_cons.mpr ⟨hx.1, hcalls⟩, hw'⟩

end Runs

/-! ## What a program answers, asked of states that keep a property -/

/-- Asked of states of `J`, a program ends in `Q`. -/
def Meets (exec : (c : C) → W → R c × W) (J : W → Prop) (Q : Except ε α → Prop) :
    Prog C R ε α → Prop
  | .done r => Q r
  | .call c k => ∀ w, J w → Meets exec J Q (k (exec c w).1)

section Meets

variable {exec : (c : C) → W → R c × W} {J : W → Prop}

theorem Meets.mono {x : Prog C R ε α} {Q Q' : Except ε α → Prop} (h : Meets exec J Q x)
    (hQ : ∀ r, Q r → Q' r) : Meets exec J Q' x := by
  induction x with
  | done r => exact hQ r h
  | call c k ih => exact fun w hw => ih _ (h w hw)

theorem Meets.bind {x : Prog C R ε α} {f : α → Prog C R ε β} {Q : Except ε β → Prop}
    (h : Meets exec J (fun r => match r with
      | .ok a => Meets exec J Q (f a)
      | .error e => Q (.error e)) x) : Meets exec J Q (x >>= f) := by
  change Meets exec J Q (x.bind f)
  induction x with
  | done r =>
    cases r with
    | ok a => exact h
    | error e => exact h
  | call c k ih => exact fun w hw => ih _ (h w hw)

theorem Meets.map {x : Prog C R ε α} {f : α → β} {Q : Except ε β → Prop}
    (h : Meets exec J (fun r => Q (r.map f)) x) : Meets exec J Q (f <$> x) := by
  refine Meets.bind (f := fun a => .done (.ok (f a))) (h.mono fun r hr => ?_)
  cases r with
  | ok a => exact hr
  | error e => exact hr

/-- One call, and what follows it. -/
theorem Meets.perform_bind {c : C} {f : R c → Prog C R ε β} {Q : Except ε β → Prop}
    (h : ∀ w, J w → Meets exec J Q (f (exec c w).1)) : Meets exec J Q (Prog.perform c >>= f) := h

/-- Whatever holds of every outcome. -/
theorem Meets.of_all {x : Prog C R ε α} {Q : Except ε α → Prop} (h : ∀ r, Q r) :
    Meets exec J Q x := by
  induction x with
  | done r => exact h r
  | call c k ih => exact fun w _ => ih _

/-- **From a state of `J` on, a program begun ends in what it meets**, whatever runs beside it. -/
theorem Service.meets (S : Service C R W E F ε α) {J : W → Prop}
    (hexec : ∀ c w, J w → J (S.exec c w).2) (hdrift : ∀ e w, J w → J (S.drift e w))
    {Q : F → Except ε α → Prop} (hcode : ∀ f, Meets S.exec J (Q f) (S.code f))
    {s : Sys C R W F ε α} (hs : J s.world) (moves : List (Move E F)) :
    J (moves.foldl S.move s).world ∧
      ∀ i f x, s.threads.length ≤ i → (moves.foldl S.move s).threads[i]? = some (f, x) →
        Meets S.exec J (Q f) x := by
  induction moves using List.reverseRecOn with
  | nil =>
    refine ⟨hs, fun i f x hi hx => ?_⟩
    rw [List.foldl_nil, List.getElem?_eq_none hi] at hx
    cases hx
  | append_singleton moves mv ih =>
    obtain ⟨hworld, hthreads⟩ := ih
    rw [List.foldl_append, List.foldl_cons, List.foldl_nil, Service.move.eq_def]
    cases mv with
    | drift e => exact ⟨hdrift e _ hworld, hthreads⟩
    | begin f =>
      refine ⟨hworld, fun i g x hi hx => ?_⟩
      rw [List.getElem?_append] at hx
      split at hx
      · exact hthreads i g x hi hx
      · rw [List.getElem?_singleton] at hx
        split at hx <;> cases hx
        exact hcode f
    | step j =>
      dsimp only
      split
      case h_2 => exact ⟨hworld, hthreads⟩
      case h_1 f c k hj =>
        refine ⟨hexec c _ hworld, fun i g x hi hx => ?_⟩
        by_cases hij : j = i
        · subst hij
          rw [List.getElem?_set_self (List.getElem?_eq_some_iff.mp hj).1] at hx
          cases hx
          exact hthreads j f _ hi hj _ hworld
        · rw [List.getElem?_set_ne hij] at hx
          exact hthreads i g x hi hx

end Meets

/-! ## Protocols -/

/-- The phases of every program: where it starts, what one answered call does, and where it may
end. -/
structure Protocol (S : Service C R W E F ε α) where
  Phase : Type
  start : F → Phase
  Step : F → Phase → (c : C) → R c → Phase → Prop
  Final : F → Except ε α → Phase → Prop
  follows : ∀ f, Leads S.exec (Step f) (start f) (S.code f) (fun a => Final f (.ok a))
    (fun e => Final f (.error e))

namespace Protocol

variable {S : Service C R W E F ε α} (P : Protocol S)

/-- Everybody's phase. -/
abbrev Locals := ℕ → Option (F × P.Phase)

/-- `Inv` is kept by whatever may happen: by the state drifting, a program beginning, one call
answered, and a program ending, where the moves are `Ok`. -/
structure Keeps (Ok : Move E F → Prop) (Inv : W → List (Entry C R F ε α) → P.Locals → Prop) :
    Prop where
  drift : ∀ {w log m e}, Inv w log m → Ok (.drift e) → Inv (S.drift e w) log m
  began : ∀ {w log m i f}, Inv w log m → m i = none → Ok (.begin f) →
    Inv w (log ++ [.began i f]) (Function.update m i (some (f, P.start f)))
  called : ∀ {w w' log m i f p c r p'}, Inv w log m → m i = some (f, p) →
    (∀ r', .ended i r' ∉ log) → S.exec c w = (r, w') → P.Step f p c r p' →
    Inv w' (log ++ [.called i c r]) (Function.update m i (some (f, p')))
  ended : ∀ {w log m i f p r}, Inv w log m → m i = some (f, p) → P.Final f r p →
    (∀ r', .ended i r' ∉ log) → Inv w (log ++ [.ended i r]) m

/-- A program stands at its phase. -/
def Stands (f : F) (p : P.Phase) (x : Prog C R ε α) : Prop :=
  Leads S.exec (P.Step f) p x (fun a => P.Final f (.ok a)) (fun e => P.Final f (.error e))

/-- A program's end is in the log once it ended, and not before. -/
def Noted (log : List (Entry C R F ε α)) (i : ℕ) : Prog C R ε α → Prop
  | .done r => .ended i r ∈ log
  | .call .. => ∀ r, .ended i r ∉ log

/-- Every program that began stands at its phase, and nobody else has one. -/
def Matches (s : Sys C R W F ε α) (m : P.Locals) : Prop :=
  ∀ i, match s.threads[i]? with
    | none => m i = none ∧ ∀ r, .ended i r ∉ s.log
    | some (f, x) => (∃ p, m i = some (f, p) ∧ P.Stands f p x) ∧ Noted s.log i x

variable {P}

section Matches

variable {s : Sys C R W F ε α} {m : P.Locals} {i : ℕ} {f : F}

theorem Matches.of_none (h : P.Matches s m) (hi : s.threads[i]? = none) :
    m i = none ∧ ∀ r, .ended i r ∉ s.log := by
  have := h i
  rwa [hi] at this

theorem Matches.of_some (h : P.Matches s m) {x : Prog C R ε α} (hi : s.threads[i]? = some (f, x)) :
    (∃ p, m i = some (f, p) ∧ P.Stands f p x) ∧ Noted s.log i x := by
  have := h i
  rwa [hi] at this

/-- A program that ended is at a final phase. -/
theorem Matches.done (h : P.Matches s m) {r : Except ε α} (hi : s.threads[i]? = some (f, .done r)) :
    (∃ p, m i = some (f, p) ∧ P.Final f r p) ∧ .ended i r ∈ s.log := by
  obtain ⟨⟨p, hp, hstands⟩, hnoted⟩ := h.of_some hi
  cases r with
  | ok a => exact ⟨⟨p, hp, hstands⟩, hnoted⟩
  | error e => exact ⟨⟨p, hp, hstands⟩, hnoted⟩

/-- Somebody with a phase began. -/
theorem Matches.began (h : P.Matches s m) {p : P.Phase} (hi : m i = some (f, p)) :
    ∃ x, s.threads[i]? = some (f, x) ∧ P.Stands f p x := by
  cases ht : s.threads[i]? with
  | none => rw [(h.of_none ht).1] at hi; cases hi
  | some e =>
    obtain ⟨⟨p', hp', hstands⟩, _⟩ := h.of_some ht
    rw [hi] at hp'
    cases hp'
    exact ⟨e.2, rfl, hstands⟩

end Matches

theorem noted_append {log log' : List (Entry C R F ε α)} {i : ℕ} {x : Prog C R ε α}
    (h : Noted log i x) (hnew : ∀ r, .ended i r ∉ log') : Noted (log ++ log') i x := by
  cases x with
  | done r => exact List.mem_append_left _ h
  | call c k => exact fun r hr => (List.mem_append.mp hr).elim (h r) (hnew r)

theorem notMem_ending {i j : ℕ} (h : i ≠ j) (x : Prog C R ε α) (r : Except ε α) :
    (.ended j r : Entry C R F ε α) ∉ ending i x := by
  cases x with
  | done r' =>
    intro hr
    cases List.mem_singleton.mp hr
    exact h rfl
  | call c k => exact List.not_mem_nil

theorem noted_ending {log : List (Entry C R F ε α)} {i : ℕ} (h : ∀ r, .ended i r ∉ log)
    (x : Prog C R ε α) : Noted (log ++ ending i x) i x := by
  cases x with
  | done r => exact List.mem_append_right _ (List.mem_singleton.mpr rfl)
  | call c k => exact fun r hr => h r (by simpa [ending] using hr)

variable {Ok : Move E F → Prop} {Inv : W → List (Entry C R F ε α) → P.Locals → Prop}

theorem Keeps.ending (hkeeps : P.Keeps Ok Inv) {w : W} {log : List (Entry C R F ε α)}
    {m : P.Locals} {i : ℕ} {f : F} {p : P.Phase} {x : Prog C R ε α} (hinv : Inv w log m)
    (hi : m i = some (f, p)) (hx : P.Stands f p x) (hnew : ∀ r, .ended i r ∉ log) :
    Inv w (log ++ ending i x) m := by
  cases x with
  | done r =>
    cases r with
    | ok a => exact hkeeps.ended hinv hi hx hnew
    | error e => exact hkeeps.ended hinv hi hx hnew
  | call c k => exact (List.append_nil log).symm ▸ hinv

theorem Keeps.move (hkeeps : P.Keeps Ok Inv) {s : Sys C R W F ε α} {m : P.Locals}
    (hmatches : P.Matches s m) (hinv : Inv s.world s.log m) {mv : Move E F} (hok : Ok mv) :
    ∃ m', P.Matches (S.move s mv) m' ∧ Inv (S.move s mv).world (S.move s mv).log m' := by
  cases mv with
  | drift e => exact ⟨m, hmatches, hkeeps.drift hinv hok⟩
  | begin f =>
    obtain ⟨hnone, hfresh⟩ := hmatches.of_none
      (List.getElem?_eq_none (Nat.le_refl s.threads.length))
    have hself : Function.update m s.threads.length (some (f, P.start f)) s.threads.length =
        some (f, P.start f) := Function.update_self ..
    have hnew : ∀ r, .ended s.threads.length r ∉ s.log ++ [.began s.threads.length f] := by
      simpa using hfresh
    refine ⟨_, fun i => ?_, hkeeps.ending (hkeeps.began hinv hnone hok) hself (P.follows f) hnew⟩
    have hother : ∀ i, i ≠ s.threads.length → ∀ r, (.ended i r : Entry C R F ε α) ∉
        [.began s.threads.length f] ++ Calls.ending s.threads.length (S.code f) := by
      intro i hi r hr
      rcases List.mem_append.mp hr with hr | hr
      · cases List.mem_singleton.mp hr
      · exact notMem_ending (Ne.symm hi) _ r hr
    rw [Service.move, List.append_assoc]
    have hi := hmatches i
    rcases Nat.lt_trichotomy i s.threads.length with hlt | rfl | hgt
    · rw [List.getElem?_append_left hlt, Function.update_of_ne (Nat.ne_of_lt hlt)]
      rw [List.getElem?_eq_getElem hlt] at hi ⊢
      exact ⟨hi.1, noted_append hi.2 (hother i (Nat.ne_of_lt hlt))⟩
    · rw [List.getElem?_concat_length, hself, ← List.append_assoc]
      exact ⟨⟨_, rfl, P.follows f⟩, noted_ending hnew _⟩
    · rw [List.getElem?_eq_none (Nat.le_of_lt hgt)] at hi
      rw [List.getElem?_eq_none (by simp; omega), Function.update_of_ne (Nat.ne_of_gt hgt)]
      exact ⟨hi.1, fun r hr => (List.mem_append.mp hr).elim (hi.2 r) (hother i (Nat.ne_of_gt hgt) r)⟩
  | step i =>
    rw [Service.move]
    split
    case h_2 => exact ⟨m, hmatches, hinv⟩
    case h_1 f c k hi =>
      obtain ⟨⟨p, hp, hstands⟩, hnoted⟩ := hmatches.of_some hi
      obtain ⟨p', hstep, hk⟩ := hstands s.world _ rfl
      have hself : Function.update m i (some (f, p')) i = some (f, p') := Function.update_self ..
      have hnew : ∀ r, .ended i r ∉ s.log ++ [.called i c (S.exec c s.world).1] := by
        simpa [Noted] using hnoted
      refine ⟨_, fun j => ?_,
        hkeeps.ending (hkeeps.called hinv hp hnoted rfl hstep) hself hk hnew⟩
      dsimp only
      by_cases hj : j = i
      · subst hj
        rw [List.getElem?_set_self (List.getElem?_eq_some_iff.mp hi).1, hself]
        exact ⟨⟨_, rfl, hk⟩, noted_ending hnew _⟩
      · have hold := hmatches j
        have hother : ∀ r, (.ended j r : Entry C R F ε α) ∉
            [.called i c (S.exec c s.world).1] ++ Calls.ending i (k (S.exec c s.world).1) := by
          intro r hr
          rcases List.mem_append.mp hr with hr | hr
          · cases List.mem_singleton.mp hr
          · exact notMem_ending (Ne.symm hj) _ r hr
        rw [List.getElem?_set_ne (Ne.symm hj), Function.update_of_ne hj, List.append_assoc]
        cases ht : s.threads[j]? with
        | none =>
          rw [ht] at hold
          exact ⟨hold.1, fun r hr => (List.mem_append.mp hr).elim (hold.2 r) (hother r)⟩
        | some e =>
          rw [ht] at hold
          exact ⟨hold.1, noted_append hold.2 hother⟩

/-- What every phase step keeps is kept by every further run. -/
theorem Keeps.run_from (hkeeps : P.Keeps Ok Inv) {s : Sys C R W F ε α} {m : P.Locals}
    (hmatches : P.Matches s m) (hinv : Inv s.world s.log m) {moves : List (Move E F)}
    (hok : ∀ mv ∈ moves, Ok mv) :
    ∃ m', P.Matches (moves.foldl S.move s) m' ∧
      Inv (moves.foldl S.move s).world (moves.foldl S.move s).log m' := by
  induction moves generalizing s m with
  | nil => exact ⟨m, hmatches, hinv⟩
  | cons mv moves ih =>
    obtain ⟨m', hmatches', hinv'⟩ := hkeeps.move hmatches hinv (hok mv List.mem_cons_self)
    exact ih hmatches' hinv' fun mv' h => hok mv' (List.mem_cons_of_mem _ h)

/-- **What every phase step keeps holds after every run**, of the phases everybody stands at. -/
theorem Keeps.run (hkeeps : P.Keeps Ok Inv) {w : W} (hstart : Inv w [] fun _ => none)
    {moves : List (Move E F)} (hok : ∀ mv ∈ moves, Ok mv) :
    ∃ m, P.Matches (S.run w moves) m ∧ Inv (S.run w moves).world (S.run w moves).log m :=
  hkeeps.run_from (s := ⟨w, [], []⟩) (fun _ => ⟨rfl, fun _ => List.not_mem_nil⟩) hstart hok

/-! ### The log and the phases -/

variable (P) in
/-- The log tells who began and who ended as the phases do. -/
structure Booked (log : List (Entry C R F ε α)) (m : P.Locals) : Prop where
  asked : ∀ i f p, m i = some (f, p) → .began i f ∈ log
  began : ∀ i f, .began i f ∈ log → ∃ p, m i = some (f, p)
  ended : ∀ i r, .ended i r ∈ log → ∃ f p, m i = some (f, p) ∧ P.Final f r p

section Booked

variable {log : List (Entry C R F ε α)} {m : P.Locals} {i : ℕ} {f : F} {p p' : P.Phase}

theorem Booked.nil : P.Booked [] fun _ => none where
  asked _ _ _ h := nomatch h
  began _ _ h := nomatch h
  ended _ _ h := nomatch h

theorem Booked.concat_began (h : P.Booked log m) (hnone : m i = none) :
    P.Booked (log ++ [.began i f]) (Function.update m i (some (f, p))) := by
  have hold : ∀ {j g q}, m j = some (g, q) → Function.update m i (some (f, p)) j = some (g, q) :=
    fun {j g q} hj => (Function.update_of_ne (fun e => by rw [e, hnone] at hj; cases hj) ..).trans hj
  refine ⟨fun j g q hj => ?_, fun j g hj => ?_, fun j r hj => ?_⟩
  · obtain ⟨rfl, heq⟩ | ⟨-, hj⟩ := update_eq_some.mp hj
    · cases heq
      exact List.mem_append_right _ (List.mem_singleton_self _)
    · exact List.mem_append_left _ (h.asked j g q hj)
  · obtain hj | hj := List.mem_append.mp hj
    · exact (h.began j g hj).imp fun _ => hold
    · cases List.mem_singleton.mp hj
      exact ⟨_, Function.update_self ..⟩
  · obtain ⟨g, q, hq, hfinal⟩ := h.ended j r (by simpa using hj)
    exact ⟨g, q, hold hq, hfinal⟩

theorem Booked.concat_called (h : P.Booked log m) (hi : m i = some (f, p))
    (hnew : ∀ r, .ended i r ∉ log) {c : C} {r : R c} :
    P.Booked (log ++ [.called i c r]) (Function.update m i (some (f, p'))) := by
  refine ⟨fun j g q hj => ?_, fun j g hj => ?_, fun j r' hj => ?_⟩
  · obtain ⟨rfl, heq⟩ | ⟨-, hj⟩ := update_eq_some.mp hj
    · cases heq
      exact List.mem_append_left _ (h.asked j f p hi)
    · exact List.mem_append_left _ (h.asked j g q hj)
  · obtain ⟨q, hq⟩ := h.began j g (by simpa using hj)
    by_cases hji : j = i
    · subst hji
      cases hi.symm.trans hq
      exact ⟨p', Function.update_self ..⟩
    · exact ⟨q, (Function.update_of_ne hji ..).trans hq⟩
  · have hj : .ended j r' ∈ log := by simpa using hj
    obtain ⟨g, q, hq, hfinal⟩ := h.ended j r' hj
    have hji : j ≠ i := fun e => hnew r' (e ▸ hj)
    exact ⟨g, q, (Function.update_of_ne hji ..).trans hq, hfinal⟩

theorem Booked.concat_ended (h : P.Booked log m) (hi : m i = some (f, p)) {r : Except ε α}
    (hfinal : P.Final f r p) : P.Booked (log ++ [.ended i r]) m := by
  refine ⟨fun j g q hj => List.mem_append_left _ (h.asked j g q hj),
    fun j g hj => h.began j g (by simpa using hj), fun j r' hj => ?_⟩
  obtain hj | hj := List.mem_append.mp hj
  · exact h.ended j r' hj
  · cases List.mem_singleton.mp hj
    exact ⟨f, p, hi, hfinal⟩

end Booked

end Protocol

end Calls
