import Janus.Machinery.Calls
import Janus.Machinery.Outcome

/-!
# Machinery/Asking — programs by what they are answered

A program whose calls are all answered at once is a computation that may fail (`answered`), and
`answered` follows the program's shape.  Answered a call at a time, with anything happening in
between, the program ends as it does whenever its answers are such as it gets: `Always` says what
that is, and `Service.always` brings it to a run.
-/

namespace Calls

variable {C : Type} {R : C → Type} {W E F ε α β : Type}

/-! ## Answered at once -/

namespace Prog

/-- What a program comes to, its calls answered by `answer`. -/
def answered (answer : (c : C) → Except ε (R c)) : Prog C R ε α → Except ε α
  | .done r => r
  | .call c k => answer c >>= fun r => (k r).answered answer

variable (answer : (c : C) → Except ε (R c))

theorem answered_done (r : Except ε α) : (.done r : Prog C R ε α).answered answer = r := rfl

theorem answered_perform (c : C) :
    (perform c : Prog C R ε (R c)).answered answer = answer c := by
  rw [perform, answered]
  cases answer c <;> rfl

theorem answered_bind (x : Prog C R ε α) (f : α → Prog C R ε β) :
    (x >>= f).answered answer = x.answered answer >>= fun a => (f a).answered answer := by
  change (x.bind f).answered answer = _
  induction x with
  | done r => cases r <;> rfl
  | call c k ih =>
    rw [Prog.bind, answered, answered]
    cases answer c with
    | error e => rfl
    | ok r => exact ih r

theorem answered_anyM (p : α → Prog C R ε Bool) (l : List α) :
    (l.anyM p).answered answer = l.anyM fun a => (p a).answered answer := by
  induction l with
  | nil => rfl
  | cons a l ih =>
    rw [List.anyM_cons, List.anyM_cons, answered_bind]
    refine bind_congr fun b => ?_
    cases b with
    | true => rfl
    | false => exact ih

end Prog

/-! ## Answered a call at a time -/

section Always

variable {P : (c : C) → R c → Prop} {Q : α → Prop}

/-- **Answered as `P` has it, a program that answers answers with `Q`.** -/
def Always (P : (c : C) → R c → Prop) (Q : α → Prop) : Prog C R ε α → Prop
  | .done (.ok a) => Q a
  | .done (.error _) => True
  | .call c k => ∀ r, P c r → Always P Q (k r)

theorem Always.pure {a : α} (h : Q a) : Always P Q (pure a : Prog C R ε α) := h

theorem Always.fail {e : ε} : Always P Q (.done (.error e) : Prog C R ε α) := trivial

/-- An outcome, read where it stands. -/
theorem Always.done {r : Except ε α} (h : ∀ a, r = .ok a → Q a) :
    Always P Q (.done r : Prog C R ε α) := by
  cases r with
  | ok a => exact h a rfl
  | error e => trivial

theorem Always.perform {c : C} {Q : R c → Prop} (h : ∀ r, P c r → Q r) :
    Always P Q (Prog.perform c : Prog C R ε (R c)) := h

theorem Always.mono {Q' : α → Prop} {x : Prog C R ε α} (h : Always P Q x)
    (hQ : ∀ a, Q a → Q' a) : Always P Q' x := by
  induction x with
  | done r =>
    cases r with
    | ok a => exact hQ a h
    | error e => trivial
  | call c k ih => exact fun r hr => ih r (h r hr)

theorem Always.bind {Q : β → Prop} {x : Prog C R ε α} {f : α → Prog C R ε β}
    (h : Always P (fun a => Always P Q (f a)) x) : Always P Q (x >>= f) := by
  change Always P Q (x.bind f)
  induction x with
  | done r =>
    cases r with
    | ok a => exact h
    | error e => trivial
  | call c k ih => exact fun r hr => ih r (h r hr)

/-- **A search that finds found it somewhere, and one that does not found it nowhere.** -/
theorem Always.anyM {T : α → Bool → Prop} {p : α → Prog C R ε Bool} {l : List α}
    (h : ∀ a ∈ l, Always P (T a) (p a)) :
    Always P (fun b => (b = true → ∃ a ∈ l, T a true) ∧ (b = false → ∀ a ∈ l, T a false))
      (l.anyM p) := by
  induction l with
  | nil =>
    exact .pure ⟨fun h => absurd h Bool.false_ne_true, fun _ _ ha => absurd ha List.not_mem_nil⟩
  | cons a l ih =>
    rw [List.anyM_cons]
    refine .bind ((h a List.mem_cons_self).mono fun b hb => ?_)
    cases b with
    | true =>
      exact .pure ⟨fun _ => ⟨a, List.mem_cons_self, hb⟩, fun h => absurd h.symm Bool.false_ne_true⟩
    | false =>
      refine (ih fun a' ha' => h a' (List.mem_cons_of_mem _ ha')).mono fun b' hb' => ?_
      refine ⟨fun ht => ?_, fun hf a' ha' => ?_⟩
      · obtain ⟨a', ha', hT⟩ := hb'.1 ht
        exact ⟨a', List.mem_cons_of_mem _ ha', hT⟩
      · obtain rfl | ha' := List.mem_cons.mp ha'
        · exact hb
        · exact hb'.2 hf a' ha'

/-- …so what it answers is, its calls answered at once. -/
theorem Always.answered {answer : (c : C) → Except ε (R c)}
    (hanswer : ∀ c r, answer c = .ok r → P c r) {x : Prog C R ε α} (h : Always P Q x) {a : α}
    (ha : x.answered answer = .ok a) : Q a := by
  induction x with
  | done r =>
    obtain rfl : r = .ok a := ha
    exact h
  | call c k ih =>
    obtain ⟨r, hr, ha⟩ := Except.bind_ok.mp ha
    exact ih r (h r (hanswer c r hr)) ha

/-- The state after each part of some moves. -/
def Service.Passes (S : Service C R W E F ε α) (s : Sys C R W F ε α) (moves : List (Move E F))
    (w : W) : Prop :=
  ∃ part, part <+: moves ∧ (part.foldl S.move s).world = w

/-- **What the answers of a program keep of it, a run keeps** whose every state answers as `P` has
it, whatever runs beside it. -/
theorem Service.keeps (S : Service C R W E F ε α) {K : Prog C R ε α → Prop}
    (hK : ∀ c k, K (.call c k) → ∀ r, P c r → K (k r)) {s : Sys C R W F ε α} {i : ℕ} {f : F}
    {x : Prog C R ε α} {moves : List (Move E F)} (hi : s.threads[i]? = some (f, x)) (hx : K x)
    (hP : ∀ w, S.Passes s moves w → ∀ c, P c (S.exec c w).1) :
    ∃ x', (moves.foldl S.move s).threads[i]? = some (f, x') ∧ K x' := by
  induction moves generalizing s x with
  | nil => exact ⟨x, hi, hx⟩
  | cons mv moves ih =>
    have hlater : ∀ w, S.Passes (S.move s mv) moves w → ∀ c, P c (S.exec c w).1 := by
      rintro w ⟨part, hpart, rfl⟩
      exact hP _ ⟨mv :: part, List.cons_prefix_cons.mpr ⟨rfl, hpart⟩, rfl⟩
    cases hmv : mv.steps i with
    | false => exact ih (S.threads_of_not_steps hi hmv) hx hlater
    | true =>
      obtain ⟨j, rfl⟩ : ∃ j, mv = .step j := by cases mv <;> simp [Move.steps] at hmv ⊢
      obtain rfl : j = i := of_decide_eq_true hmv
      cases x with
      | done r =>
        have hstays : (S.move s (.step j)).threads[j]? = some (f, .done r) := by
          rw [Service.move, hi]
          exact hi
        exact ih hstays hx hlater
      | call c k =>
        have hanswer : P c (S.exec c s.world).1 := hP _ ⟨[], List.nil_prefix, rfl⟩ c
        refine ih (x := k (S.exec c s.world).1) ?_ (hK c k hx _ hanswer) hlater
        rw [Service.move, hi]
        exact List.getElem?_set_self (List.getElem?_eq_some_iff.mp hi).1

/-- What a program always answers with, it answers with in a run. -/
theorem Service.always (S : Service C R W E F ε α) {s : Sys C R W F ε α} {i : ℕ} {f : F}
    {x : Prog C R ε α} {moves : List (Move E F)} (hi : s.threads[i]? = some (f, x))
    (hx : Always P Q x) (hP : ∀ w, S.Passes s moves w → ∀ c, P c (S.exec c w).1) :
    ∃ x', (moves.foldl S.move s).threads[i]? = some (f, x') ∧ Always P Q x' :=
  S.keeps (fun _ _ h => h) hi hx hP

end Always

/-! ## Searches, and outcomes read on -/

section Only

variable {Ok : C → Prop} {Z : ε → Prop}

/-- An outcome, read on where it answers. -/
theorem Only.done_bind {r : Except ε α} {f : α → Prog C R ε β} (hr : ∀ e, r = .error e → Z e)
    (hf : ∀ a, r = .ok a → Only Ok Z (f a)) : Only Ok Z (.done r >>= f) := by
  cases r with
  | ok a => exact hf a rfl
  | error e => exact hr e rfl

theorem Only.anyM {p : α → Prog C R ε Bool} {l : List α} (h : ∀ a ∈ l, Only Ok Z (p a)) :
    Only Ok Z (l.anyM p) := by
  induction l with
  | nil => exact .pure
  | cons a l ih =>
    rw [List.anyM_cons]
    refine .bind (h a List.mem_cons_self) fun b => ?_
    cases b with
    | true => exact .pure
    | false => exact ih fun a' ha' => h a' (List.mem_cons_of_mem _ ha')

end Only

end Calls
