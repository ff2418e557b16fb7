import Janus.Machinery.Calls

/-!
# Machinery/Traces — what a program was told before it calls

A **trace** is the calls a program made, each answered by anything whatever.  `Knows` is what holds
of the trace at every call and at the end; a call reached by a trace is one of them (`Knows.trace`).
-/

namespace Calls

variable {C : Type} {R : C → Type} {ε α β : Type}

/-- **A program is left with another** after the calls of a trace. -/
inductive Trace : Prog C R ε α → List (Σ c, R c) → Prog C R ε α → Prop
  | nil {x : Prog C R ε α} : Trace x [] x
  | cons {c : C} {k : R c → Prog C R ε α} {r : R c} {log : List (Σ c, R c)} {y : Prog C R ε α}
      (h : Trace (k r) log y) : Trace (.call c k) (⟨c, r⟩ :: log) y

/-- `P` holds of the trace before each call, and `Q` of the whole one at the end. -/
def Knows (P : List (Σ c, R c) → C → Prop) (Q : List (Σ c, R c) → Except ε α → Prop) :
    List (Σ c, R c) → Prog C R ε α → Prop
  | log, .done r => Q log r
  | log, .call c k => P log c ∧ ∀ r, Knows P Q (log ++ [⟨c, r⟩]) (k r)

/-- A program run for every element, in order. -/
def Prog.each (f : α → Prog C R ε β) : List α → Prog C R ε (List β)
  | [] => pure []
  | a :: as => do
    let b ← f a
    let bs ← Prog.each f as
    pure (b :: bs)

section Knows

variable {P : List (Σ c, R c) → C → Prop} {log more : List (Σ c, R c)}

/-- **Of every call a trace reaches.** -/
theorem Knows.trace {Q : List (Σ c, R c) → Except ε α → Prop} {x : Prog C R ε α} {c : C}
    {k : R c → Prog C R ε α} (h : Knows P Q log x) (ht : Trace x more (.call c k)) :
    P (log ++ more) c := by
  generalize hy : Prog.call c k = y at ht
  induction ht generalizing log with
  | nil =>
    subst hy
    rw [List.append_nil]
    exact h.1
  | @cons _ _ r more' _ _ ih =>
    have := ih (h.2 r) hy
    rwa [List.append_assoc, List.singleton_append] at this

/-- …and of the end a trace comes to. -/
theorem Knows.ended {Q : List (Σ c, R c) → Except ε α → Prop} {x : Prog C R ε α} {r : Except ε α}
    (h : Knows P Q log x) (ht : Trace x more (.done r)) : Q (log ++ more) r := by
  generalize hy : Prog.done r = y at ht
  induction ht generalizing log with
  | nil =>
    subst hy
    rw [List.append_nil]
    exact h
  | @cons _ _ r' more' _ _ ih =>
    have := ih (h.2 r') hy
    rwa [List.append_assoc, List.singleton_append] at this

theorem Knows.mono {Q Q' : List (Σ c, R c) → Except ε α → Prop} {x : Prog C R ε α}
    (h : Knows P Q log x) (hQ : ∀ log' r, log <+: log' → Q log' r → Q' log' r) :
    Knows P Q' log x := by
  induction x generalizing log with
  | done r => exact hQ log r (List.prefix_refl log) h
  | call c k ih =>
    exact ⟨h.1, fun r => ih r (h.2 r) fun log' r' hlog =>
      hQ log' r' ((List.prefix_append log _).trans hlog)⟩

theorem Knows.bind {Q : List (Σ c, R c) → Except ε β → Prop} {x : Prog C R ε α}
    {f : α → Prog C R ε β}
    (h : Knows P (fun log r => match r with
      | .ok a => Knows P Q log (f a)
      | .error e => Q log (.error e)) log x) : Knows P Q log (x >>= f) := by
  change Knows P Q log (x.bind f)
  induction x generalizing log with
  | done r =>
    cases r with
    | ok a => exact h
    | error e => exact h
  | call c k ih => exact ⟨h.1, fun r => ih r (h.2 r)⟩

/-- One call, and what follows it. -/
theorem Knows.perform_bind {Q : List (Σ c, R c) → Except ε β → Prop} {c : C}
    {f : R c → Prog C R ε β} (hc : P log c) (h : ∀ r, Knows P Q (log ++ [⟨c, r⟩]) (f r)) :
    Knows P Q log (Prog.perform c >>= f) := ⟨hc, h⟩

/-- **A program run for every element**, where it ends for all: each left what no later call takes
back. -/
theorem Knows.each {Post : List (Σ c, R c) → α → β → Prop}
    (hlater : ∀ {log log' a b}, log <+: log' → Post log a b → Post log' a b)
    {f : α → Prog C R ε β} {as : List α}
    (hf : ∀ log, ∀ a ∈ as, Knows P (fun log' r => ∀ b, r = .ok b → Post log' a b) log (f a)) :
    Knows P (fun log' r => ∀ bs, r = .ok bs → List.Forall₂ (Post log') as bs) log
      (Prog.each f as) := by
  induction as generalizing log with
  | nil =>
    intro bs hbs
    cases hbs
    exact .nil
  | cons a as ih =>
    refine Knows.bind ((hf log a List.mem_cons_self).mono fun log₁ r _ hr => ?_)
    cases r with
    | error e => exact nofun
    | ok b =>
      refine Knows.bind ((ih fun log a ha => hf log a (List.mem_cons_of_mem _ ha)).mono
        fun log₂ r hlog hr' => ?_)
      cases r with
      | error e => exact nofun
      | ok bs =>
        intro bs' hbs'
        cases hbs'
        exact .cons (hlater hlog (hr b rfl)) (hr' bs rfl)

end Knows

end Calls
