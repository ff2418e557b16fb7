import Janus.Auth.FactorHistory

/-!
# Auth/AppCodes — an authenticator code is used once

The last step on a record only rises while its secret stays: what a code accepted writes is a later
step (`Rewrites.accepts`), what any other write of that secret leaves is no earlier one
(`Rewrites.keeps`).
-/

namespace Janus.Auth

open Js Insertion Calls

/-- The code of the app, of the flows that take one. -/
def FactorFlow.appCode : FactorFlow → Option Str
  | .activate _ _ code _ _ | .regenerate _ _ code _ _ | .confirm _ _
    code _ | .stepUp _ _ _ code _ =>
    some code
  | .enroll .. | .disable .. | .recover .. => none

/-- The flows that put another secret on a record, or none. -/
def FactorFlow.Renews : FactorFlow → Prop
  | .enroll .. | .disable .. => True
  | _ => False

namespace FactorWrites

/-! ## The log, read -/

/-- A code of the app accepted for the user: its step, the last one its call wrote. -/
def Accepted (log : FactorLog) (id : Str) (e : FactorEntry) (step : ℕ) : Prop :=
  ∃ f new factor, WroteBy log id f e new ∧ f.appCode.isSome ∧ new.secondFactor = some factor ∧
    factor.lastStep = some step

/-- Another secret written for the user, or none. -/
def Renewed (log : FactorLog) (id : Str) (e : FactorEntry) : Prop :=
  ∃ f new, WroteBy log id f e new ∧ f.Renews

/-- The same secret, as it was sealed or sealed again. -/
def Reseals (ctx : Context) (userId : Str) (old new : SecondFactorRecord) : Prop :=
  new.secret = old.secret ∨ ∃ plain sealer keyId where_,
    unseal_ ctx sealer old.secret userId where_ = .ok (plain, keyId) ∧
    SealedAs ctx userId plain new.secret

/-- The user's factor, as the writes of the log leave it. -/
def factorAfter (w : World) (id : Str) (log : FactorLog) : Option SecondFactorRecord :=
  (recordAfter w id log).bind (·.secondFactor)

/-! ## What a write does to the last step -/

theorem steps_le_refl (a : Option ℕ) : a ≤ a := by
  cases a with
  | none => exact Option.none_le
  | some a => exact Option.some_le_some.mpr le_rfl

theorem steps_le_trans {a b c : Option ℕ} (hab : a ≤ b) (hbc : b ≤ c) : a ≤ c := by
  cases a with
  | none => exact Option.none_le
  | some a =>
    cases b with
    | none => exact absurd hab Option.not_some_le_none
    | some b =>
      cases c with
      | none => exact absurd hbc Option.not_some_le_none
      | some c =>
        exact Option.some_le_some.mpr ((Option.some_le_some.mp hab).trans (Option.some_le_some.mp hbc))

section Rewrites

variable {ctx : Context} {userId code plain : Str} {drawn : List ℕ} {f : FactorFlow}
  {factor accepted : SecondFactorRecord} {old new : Option SecondFactorRecord} {step : ℕ}

theorem ShownAt.later (h : ShownAt ctx userId code factor plain step) :
    factor.lastStep < some step := by
  obtain ⟨sealer, keyId, secret, now, where_, -, -, hstep⟩ := h
  cases hlast : factor.lastStep with
  | none => exact Option.none_lt_some
  | some last => exact Option.some_lt_some.mpr (matchStep_some hstep hlast)

theorem Accepts.keeps (h : Accepts ctx userId code factor accepted) :
    Reseals ctx userId factor accepted ∧ ∃ plain step, ShownAt ctx userId code factor plain step ∧
      accepted.lastStep = some step := by
  obtain ⟨plain, step, secret, hshown, hsecret, rfl⟩ := h
  refine ⟨hsecret.imp_right fun hsealed => ?_, plain, step, hshown, rfl⟩
  obtain ⟨sealer, keyId, -, -, where_, hplain, -⟩ := hshown
  exact ⟨plain, sealer, keyId, where_, hplain, hsealed⟩

/-- A code accepted writes the step it was shown at, over the same secret. -/
theorem Rewrites.accepts (h : Rewrites ctx userId drawn old f new) (hcode : f.appCode = some code) :
    ∃ factor factor', old = some factor ∧ new = some factor' ∧ Reseals ctx userId factor factor' ∧
      ∃ plain step, ShownAt ctx userId code factor plain step ∧ factor'.lastStep = some step := by
  cases f with
  | enroll | disable | recover => cases hcode
  | activate =>
    cases hcode
    obtain ⟨factor, accepted, at_, hashes, hold, haccepts, -, hnew⟩ := h
    exact ⟨factor, _, hold, hnew, haccepts.keeps⟩
  | regenerate =>
    cases hcode
    obtain ⟨factor, accepted, hashes, hold, haccepts, -, hnew⟩ := h
    exact ⟨factor, _, hold, hnew, haccepts.keeps⟩
  | confirm | stepUp =>
    cases hcode
    obtain ⟨factor, accepted, hold, haccepts, hnew⟩ := h
    exact ⟨factor, _, hold, hnew, haccepts.keeps⟩

/-- A write that leaves the secret leaves no earlier step. -/
theorem Rewrites.keeps (h : Rewrites ctx userId drawn old f new) (hf : ¬ f.Renews) :
    ∃ factor factor', old = some factor ∧ new = some factor' ∧ Reseals ctx userId factor factor' ∧
      factor.lastStep ≤ factor'.lastStep := by
  cases hcode : f.appCode with
  | some code =>
    obtain ⟨factor, factor', hold, hnew, hreseals, plain, step, hshown, hstep⟩ := h.accepts hcode
    refine ⟨factor, factor', hold, hnew, hreseals, ?_⟩
    have hlater := hshown.later
    cases hlast : factor.lastStep with
    | none => exact Option.none_le
    | some last =>
      rw [hlast, Option.some_lt_some] at hlater
      rw [hstep, Option.some_le_some]
      exact hlater.le
  | none =>
    cases f with
    | enroll | disable => exact absurd trivial hf
    | activate | regenerate | confirm | stepUp => cases hcode
    | recover =>
      obtain ⟨factor, k, hash, hold, -, hnew⟩ := h
      exact ⟨factor, _, hold, hnew, Or.inl rfl, steps_le_refl _⟩

end Rewrites

/-! ## What the log says -/

section Log

variable {ctx : Context} {w : World} {log l₁ l₂ l₃ : FactorLog} {e e' : FactorEntry}
  {f : FactorFlow}
  {id : Str} {new : UserRecord} {step step' : ℕ} {factor : SecondFactorRecord}

theorem factorAfter_eq_some {old : UserRecord} (h : recordAfter w id log = some old) :
    factorAfter w id log = old.secondFactor := by rw [factorAfter, h, Option.bind_some]

theorem factorAfter_wrote (h : WroteBy log id f e new) :
    factorAfter w id (l₁ ++ [e]) = new.secondFactor :=
  factorAfter_eq_some (by rw [recordAfter_concat, h.1, Option.some_or])

/-- Any write that leaves the secret. -/
theorem Lawful.kept (h : Lawful ctx w log) (hlog : log = l₁ ++ e :: l₂)
    (hwrote : WroteBy log id f e new) (hf : ¬ f.Renews) :
    ∃ factor factor', factorAfter w id l₁ = some factor ∧ new.secondFactor = some factor' ∧
      Reseals ctx id factor factor' ∧ factor.lastStep ≤ factor'.lastStep := by
  obtain ⟨old, factor', drawn, hold, hrewrites, -, hnew⟩ := h.rewrites hlog hwrote
  obtain ⟨factor, factor', hfactor, rfl, hreseals, hle⟩ := hrewrites.keeps hf
  exact ⟨factor, factor', (factorAfter_eq_some hold).trans hfactor, by rw [hnew], hreseals, hle⟩

theorem Lawful.accepted (h : Lawful ctx w log) (hlog : log = l₁ ++ e :: l₂)
    (haccepted : Accepted log id e step) :
    ∃ f code factor plain, .began e.thread f ∈ log ∧ f.appCode = some code ∧
      factorAfter w id l₁ = some factor ∧ ShownAt ctx id code factor plain step := by
  obtain ⟨f, new, factor', hwrote, hcode, hnewfactor, hstep⟩ := haccepted
  obtain ⟨code, hcode⟩ := Option.isSome_iff_exists.mp hcode
  obtain ⟨old, _, drawn, hold, hrewrites, -, hnew⟩ := h.rewrites hlog hwrote
  obtain ⟨factor, factor'', hfactor, rfl, -, plain, step', hshown, hstep'⟩ :=
    hrewrites.accepts hcode
  refine ⟨f, code, factor, plain, hwrote.2, hcode, (factorAfter_eq_some hold).trans hfactor, ?_⟩
  rw [hnew] at hnewfactor
  cases hnewfactor
  cases hstep.symm.trans hstep'
  exact hshown

/-- A factor on one record is on another, at no earlier step. -/
def NoEarlier (a b : Option UserRecord) : Prop :=
  ∀ factor, a.bind (·.secondFactor) = some factor →
    ∃ factor', b.bind (·.secondFactor) = some factor' ∧ factor.lastStep ≤ factor'.lastStep

/-- **The last step never falls while the secret stays.** -/
theorem Lawful.lastStep_le (h : Lawful ctx w log) (hlog : log = l₁ ++ l₂ ++ l₃)
    (hsame : ∀ e ∈ l₂, ¬ Renewed log id e) (hfactor : factorAfter w id l₁ = some factor) :
    ∃ factor', factorAfter w id (l₁ ++ l₂) = some factor' ∧ factor.lastStep ≤ factor'.lastStep := by
  refine (recordAfter_append ?_ ?_ ?_ : NoEarlier (recordAfter w id l₁) (recordAfter w id (l₁ ++ l₂)))
    factor hfactor
  · intro a factor ha
    exact ⟨factor, ha, steps_le_refl _⟩
  · intro a b c hab hbc factor ha
    obtain ⟨factor', hb, hle⟩ := hab factor ha
    obtain ⟨factor'', hc, hle'⟩ := hbc factor' hb
    exact ⟨factor'', hc, steps_le_trans hle hle'⟩
  · rintro l e l' new rfl hnew factor ha
    have he : log = (l₁ ++ l) ++ e :: (l' ++ l₃) := by rw [hlog]; simp
    obtain ⟨f, hwrote⟩ := h.wroteBy (he ▸ List.mem_append_right _ List.mem_cons_self) hnew
    have hf : ¬ f.Renews := fun hf => hsame e (by simp) ⟨f, new, hwrote, hf⟩
    obtain ⟨factor₀, factor', hfactor, hnewfactor, -, hle⟩ := h.kept he hwrote hf
    cases hfactor.symm.trans ha
    exact ⟨factor', hnewfactor, hle⟩

/-- **A step accepted is later than every one accepted before it**, of the same secret. -/
theorem Lawful.accepted_lt (h : Lawful ctx w log) (hlog : log = l₁ ++ e :: l₂ ++ e' :: l₃)
    (hsame : ∀ e ∈ l₂, ¬ Renewed log id e) (he : Accepted log id e step)
    (he' : Accepted log id e' step') : step < step' := by
  obtain ⟨f, new, factor, hwrote, -, hnew, hstep⟩ := he
  have hsplit : log = (l₁ ++ [e]) ++ l₂ ++ e' :: l₃ := by rw [hlog]; simp
  obtain ⟨factor', hfactor', hle⟩ := h.lastStep_le hsplit hsame
    ((factorAfter_wrote hwrote).trans hnew)
  obtain ⟨_, _, last, plain, -, -, hlast, hshown⟩ := h.accepted hlog he'
  rw [List.append_assoc, List.singleton_append, hlast] at hfactor'
  cases hfactor'
  have hlater := hshown.later
  rw [hstep] at hle
  cases hstep' : factor'.lastStep with
  | none => exact absurd (hstep' ▸ hle) Option.not_some_le_none
  | some _ =>
    rw [hstep'] at hle hlater
    exact (Option.some_le_some.mp hle).trans_lt (Option.some_lt_some.mp hlater)

/-- A call that takes a code of the app succeeds once its code is accepted, or was asked no such
code. -/
theorem Lawful.accepts_of_ok (h : Lawful ctx w log) {i : ℕ} {a : FactorAnswer}
    (hbegan : .began i f ∈ log) (hcode : f.appCode.isSome) (hended : .ended i (.ok a) ∈ log) :
    (∃ e ∈ log, e.thread = i ∧ ∃ id step, Accepted log id e step) ∨
      (∃ type presented challenge code at_, f = .stepUp type presented challenge code at_) ∧
        ∃ e ∈ log, EmailedBy i e := by
  obtain ⟨l₁, l₂, hlog, htold⟩ := h.told.mem hended
  obtain ⟨g, hg, hok⟩ := htold.ended i a rfl
  obtain rfl : g = f := h.unique i g f (hlog ▸ List.mem_append_left _ hg) hbegan
  obtain ⟨e, he, id, patch, v, new, rfl⟩ | ⟨hstepUp, e, he, hemailed⟩ := hok
  · left
    have hmem : Entry.called i (.updateUser id patch v) (.ok new) ∈ log :=
      hlog ▸ List.mem_append_left _ he
    have hwrote : WroteBy log id g (.called i (.updateUser id patch v) (.ok new)) new :=
      ⟨if_pos rfl, hbegan⟩
    obtain ⟨l₃, l₄, hsplit⟩ := List.append_of_mem hmem
    obtain ⟨code, hcode'⟩ := Option.isSome_iff_exists.mp hcode
    obtain ⟨old, _, drawn, hold, hrewrites, -, hnew⟩ := h.rewrites hsplit hwrote
    obtain ⟨-, factor, -, rfl, -, plain, step, -, hstep⟩ := hrewrites.accepts hcode'
    exact ⟨_, hmem, rfl, id, step, g, new, factor, hwrote, hcode, by rw [hnew], hstep⟩
  · exact Or.inr ⟨hstepUp, e, hlog ▸ List.mem_append_left _ he, hemailed⟩

end Log

end FactorWrites

open FactorWrites in
/-- **An authenticator code is used once.**  However the calls on a user's factor interleave, and
whatever the clock reads: a call that takes a code of the app succeeds only once a step was accepted
for it; a step accepted is that of the code given, after the last one on the record; every write but
an enrolment's and a disabling's leaves the secret and no earlier step; so while the secret stays
the last step never falls, and of two steps accepted the later write's is the later one. -/
theorem app_code_once (ctx : Context) (w : World) (moves : List (Move Drift FactorFlow)) (id : Str)
    (hkeyed : ∀ id record, get w.users id = some record → record.id = id) :
    let run := (factorService ctx).run w moves
    get run.world.users id = recordAfter w id run.log ∧
    (∀ i f a, .began i f ∈ run.log → f.appCode.isSome → .ended i (.ok a) ∈ run.log →
      (∃ e ∈ run.log, e.thread = i ∧ ∃ id step, Accepted run.log id e step) ∨
        (∃ type presented challenge code at_, f = .stepUp type presented challenge code at_) ∧
          ∃ e ∈ run.log, EmailedBy i e) ∧
    (∀ l₁ e l₂ step, run.log = l₁ ++ e :: l₂ → Accepted run.log id e step →
      ∃ f code factor plain, .began e.thread f ∈ run.log ∧ f.appCode = some code ∧
        factorAfter w id l₁ = some factor ∧ ShownAt ctx id code factor plain step ∧
        factor.lastStep < some step) ∧
    (∀ l₁ e l₂ f new, run.log = l₁ ++ e :: l₂ → WroteBy run.log id f e new → ¬ f.Renews →
      ∃ factor factor', factorAfter w id l₁ = some factor ∧ new.secondFactor = some factor' ∧
        Reseals ctx id factor factor' ∧ factor.lastStep ≤ factor'.lastStep) ∧
    (∀ l₁ l₂ l₃ factor, run.log = l₁ ++ l₂ ++ l₃ → (∀ e ∈ l₂, ¬ Renewed run.log id e) →
      factorAfter w id l₁ = some factor →
      ∃ factor', factorAfter w id (l₁ ++ l₂) = some factor' ∧ factor.lastStep ≤ factor'.lastStep) ∧
    ∀ l₁ e l₂ e' l₃ step step', run.log = l₁ ++ e :: l₂ ++ e' :: l₃ →
      (∀ e ∈ l₂, ¬ Renewed run.log id e) → Accepted run.log id e step →
      Accepted run.log id e' step' → step < step' := by
  obtain ⟨hlawful, hcurrent⟩ := lawful ctx hkeyed moves
  refine ⟨hcurrent id, fun i f a => hlawful.accepts_of_ok, fun l₁ e l₂ step hlog haccepted => ?_,
    fun l₁ e l₂ f new => hlawful.kept, fun l₁ l₂ l₃ factor => hlawful.lastStep_le,
    fun l₁ e l₂ e' l₃ step step' => hlawful.accepted_lt⟩
  obtain ⟨f, code, factor, plain, hf, hcode, hfactor, hshown⟩ := hlawful.accepted hlog haccepted
  exact ⟨f, code, factor, plain, hf, hcode, hfactor, hshown, hshown.later⟩

/-! ## A code typed twice -/

/-- A factor of hers, and a recovery code of it. -/
def adasFactor : SecondFactorRecord where
  secret := js "v1.k1.keyed:.keyed:AAAAAAAAAAAAAAAAAAAAAAAA"
  confirmedAt := some 0
  lastStep := none
  recoveryCodes :=
    [hashRecoveryCode clinic ⟨js "k1", [(js "k1", [])], k1_held⟩ ada.id (js "00000-00000")]

/-- A sign-in of hers that waits for its code. -/
def waiting (challenge : Str) : Str × TokenRecord :=
  (challenge, ⟨challenge, .secondFactor, ada.id, js "ada@clinic.test", none, 0, 600000, none, 0⟩)

/-- Two sign-ins waiting. -/
def twoWaiting : World :=
  ⟨[(ada.id, { ada with secondFactor := some adasFactor })], [],
    [waiting (js "one"), waiting (js "two")], 60000, 0, false⟩

/-- One code, typed at both. -/
def typedAtBoth : List (Move Drift FactorFlow) :=
  [.begin (.confirm patient (js "one") (js "000000") (js "patient." ++ ·)),
    .begin (.confirm patient (js "two") (js "000000") (js "patient." ++ ·))] ++
    List.replicate 14 (.step 0) ++ List.replicate 14 (.step 1)

/-- Whose writes of the user, and the last step each left. -/
def stepsWritten (id : Str) (log : FactorLog) : List (ℕ × Option ℕ) :=
  log.filterMap fun e => (written id e).map fun new =>
  (e.thread, new.secondFactor.bind (·.lastStep))

set_option maxRecDepth 2048 in
open FactorWrites in
/-- It is accepted at two steps, the second sign-in's the later one. -/
theorem app_code_once_at_both :
    let log := ((factorService clinic).run twoWaiting typedAtBoth).log
    stepsWritten ada.id log = [(0, some 1), (1, some 2)] ∧
      ∃ e e' step step', Accepted log ada.id e step ∧ Accepted log ada.id e' step' ∧
      step < step' := by
  have hwrites : stepsWritten ada.id ((factorService clinic).run twoWaiting typedAtBoth).log =
      [(0, some 1), (1, some 2)] := by decide +kernel
  have hkeyed : ∀ id record, get twoWaiting.users id = some record → record.id = id := by
    intro id record h
    obtain ⟨rfl, rfl⟩ := by simpa [twoWaiting, Insertion.get] using h
    rfl
  obtain ⟨-, -, -, -, -, hlater⟩ := app_code_once clinic twoWaiting typedAtBoth ada.id hkeyed
  obtain ⟨l₁, e, rest, hlog, -, he, hrest⟩ := List.filterMap_eq_cons_iff.mp hwrites
  obtain ⟨l₂, e', l₃, rfl, hquiet, he', -⟩ := List.filterMap_eq_cons_iff.mp hrest
  have haccepted : ∀ {e : FactorEntry} {i step : ℕ} {challenge : Str},
      (written ada.id e).map (fun new => (e.thread, new.secondFactor.bind (·.lastStep))) =
        some (i, some step) →
      .began i (.confirm patient challenge (js "000000") (js "patient." ++ ·)) ∈
        ((factorService clinic).run twoWaiting typedAtBoth).log →
      Accepted ((factorService clinic).run twoWaiting typedAtBoth).log ada.id e step := by
    intro e i step challenge he hbegan
    obtain ⟨new, hnew, heq⟩ := Option.map_eq_some_iff.mp he
    obtain ⟨rfl, hstep⟩ := Prod.mk.inj heq
    obtain ⟨factor, hfactor, hlast⟩ := Option.bind_eq_some_iff.mp hstep
    exact ⟨_, new, factor, ⟨hnew, hbegan⟩, rfl, hfactor, hlast⟩
  have hfirst := haccepted he (List.mem_of_getElem? (i := 0) rfl)
  have hsecond := haccepted he' (List.mem_of_getElem? (i := 1) rfl)
  refine ⟨hwrites, e, e', 1, 2, hfirst, hsecond,
    hlater l₁ e l₂ e' l₃ 1 2 (by simp [hlog]) ?_ hfirst hsecond⟩
  rintro e he ⟨f, new, ⟨hnew, -⟩, -⟩
  exact absurd (hquiet e he) (by simp [hnew])

end Janus.Auth
