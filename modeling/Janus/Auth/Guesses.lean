import Janus.Auth.Chain
import Janus.Auth.FirstProof
import Janus.Auth.StepUp

/-!
# Auth/Guesses — five guesses at a challenge, and one success

    fresh ──count──▸ admitted ──spend──▸ spent

Four flows redeem a challenge with a code.  Each counts its attempt before it reads its code
(`Guess.run_eq`), and succeeds only once it spent the challenge: the counts of one challenge go up
by one, and none comes after it is spent (`Guessed.tells`).
-/

namespace Janus.Auth

open Js Insertion Calls

/-! ## The flows -/

/-- What redeems a challenge: a step-up, with the session token its request presents. -/
inductive Redemption where
  | signInCode
  | confirm
  | recover
  | stepUp (presented : Option Str)

/-- The kind of its challenges. -/
def Redemption.kind : Redemption → TokenKind
  | .signInCode => .signInCode
  | .confirm | .recover => .secondFactor
  | .stepUp _ => .stepUp

/-- One call, by the API of any type. -/
structure Guess where
  by_ : Redemption
  type : ResolvedType
  at_ : At
  code : Str

inductive GuessAnswer where
  | signedIn (result : SignInResult)
  | recovered (result : RecoveredSignIn)
  | confirmed (session : SessionRecord)

def Guess.run (ctx : Context) (challenge : Str) : Guess → Flow GuessAnswer
  | ⟨.signInCode, type, at_, code⟩ => .signedIn <$> confirmCode ctx type challenge code at_
  | ⟨.confirm, type, at_, code⟩ => .signedIn <$> confirmChallenge ctx type challenge code at_
  | ⟨.recover, type, at_, code⟩ => .recovered <$> recoverWithCode ctx type challenge code at_
  | ⟨.stepUp presented, type, at_, code⟩ =>
    .confirmed <$> confirmStepUp ctx type presented challenge code at_

/-- Any number of them at one challenge, over one store. -/
def guessService (ctx : Context) (challenge : Str) :
    Service Call Answer World Drift Guess Failure GuessAnswer where
  exec := exec
  drift := drift
  code := Guess.run ctx challenge

/-- The log of such a run. -/
abbrev GuessLog := List (Entry Call Answer Guess Failure GuessAnswer)

/-! ### The code is read once the attempt is counted -/

/-- What a call does before it reads its code. -/
def counting (ctx : Context) (challenge : Str) (by_ : Redemption) (type : ResolvedType) (at_ : At) :
    Flow (TokenRecord × ℕ) :=
  match by_ with
  | .signInCode =>
    countCodeAttempt ctx challenge .signInCode (at_ (js "signInCode.confirm")) type.name
  | .confirm => counted (at_ (js "secondFactor.confirm"))
  | .recover => counted (at_ (js "secondFactor.recover"))
  | .stepUp _ => countCodeAttempt ctx challenge .stepUp (at_ (js "stepUp.confirm")) type.name
where
  counted (where_ : Str) : Flow (TokenRecord × ℕ) := do
    let _ ← Prog.done (requireSettings ctx where_ (js "a second factor is being confirmed"))
    countCodeAttempt ctx challenge .secondFactor where_ type.name

theorem bind_assoc {α β γ : Type} (x : Flow α) (f : α → Flow β) (g : β → Flow γ) :
    x >>= f >>= g = x >>= fun a => f a >>= g := Prog.bind_assoc x f g

theorem map_bind_bind {α β γ δ : Type} (x : Flow α) (k : α → Flow β) (l : β → Flow γ) (f : γ → δ) :
    f <$> (x >>= k >>= l) = x >>= fun a => f <$> (k a >>= l) :=
  (congrArg (f <$> ·) (bind_assoc x k l)).trans (bind_assoc x _ _)

theorem openChallenge_eq (ctx : Context) (type : ResolvedType) (challenge where_ : Str) :
    ∃ k, openChallenge ctx type challenge where_ =
    counting.counted ctx challenge type where_ >>= k := by
  unfold openChallenge counting.counted
  cases requireSettings ctx where_ (js "a second factor is being confirmed") with
  | error e => exact ⟨fun _ => Prog.fail e, rfl⟩
  | ok configured => exact ⟨_, rfl⟩

/-- **A call counts its attempt before it reads its code.** -/
theorem Guess.run_eq (ctx : Context) (challenge : Str) (by_ : Redemption) (type : ResolvedType)
    (at_ : At) : ∃ k : Str → TokenRecord × ℕ → Flow GuessAnswer, ∀ code,
      Guess.run ctx challenge ⟨by_, type, at_, code⟩ =
        counting ctx challenge by_ type at_ >>= k code := by
  cases by_ with
  | signInCode => exact ⟨_, fun code => bind_assoc _ _ _⟩
  | confirm =>
    obtain ⟨k, hk⟩ := openChallenge_eq ctx type challenge (at_ (js "secondFactor.confirm"))
    exact ⟨_, fun code => (congrArg (fun x => GuessAnswer.signedIn <$> (x >>= _)) hk).trans
      (map_bind_bind ..)⟩
  | recover =>
    obtain ⟨k, hk⟩ := openChallenge_eq ctx type challenge (at_ (js "secondFactor.recover"))
    exact ⟨_, fun code => (congrArg (fun x => GuessAnswer.recovered <$> (x >>= _)) hk).trans
      (map_bind_bind ..)⟩
  | stepUp presented => exact ⟨_, fun code => bind_assoc _ _ _⟩

/-- **What counted its attempt was let through**: the challenge was unspent, and the attempt within
the limit. -/
theorem after_countCodeAttempt {ctx : Context} {challenge where_ userType : Str} {kind : TokenKind}
    {answers : List ((c : Call) × Answer c)} {counted : TokenRecord × ℕ}
    (h : After (countCodeAttempt ctx challenge kind where_ userType) answers
      (.done (.ok counted))) :
    ∃ t, ⟨.countAttempt (hashSecret ctx challenge) kind, some t⟩ ∈ answers ∧ t.spentAt = none ∧
      t.attempts ≤ codeAttempts := by
  cases h with
  | @cons _ _ token _ _ h =>
  cases h with
  | @cons _ _ now _ _ h =>
  change After (.done (refuseUnusable token now where_ .challenge) >>= _) _ _ at h
  cases hused : refuseUnusable token now where_ .challenge with
  | error e =>
    rw [hused] at h
    cases h
  | ok t =>
    obtain ⟨rfl, hspent⟩ := unspent_of_refuseUnusable hused
    rw [hused] at h
    change After (if codeAttempts < t.attempts then _ else _) _ _ at h
    split at h
    case isTrue => cases h
    case isFalse hfew =>
      exact ⟨t, List.mem_cons_self, hspent, Nat.not_lt.mp hfew⟩

theorem after_counting {ctx : Context} {challenge : Str} {by_ : Redemption} {type : ResolvedType}
    {at_ : At} {answers : List ((c : Call) × Answer c)} {counted : TokenRecord × ℕ}
    (h : After (counting ctx challenge by_ type at_) answers (.done (.ok counted))) :
    ∃ kind t, ⟨.countAttempt (hashSecret ctx challenge) kind, some t⟩ ∈ answers ∧
      t.spentAt = none ∧ t.attempts ≤ codeAttempts := by
  have hcounted : ∀ {where_ : Str}, After (counting.counted ctx challenge type where_) answers
      (.done (.ok counted)) → ∃ kind t,
        ⟨.countAttempt (hashSecret ctx challenge) kind, some t⟩ ∈ answers ∧
          t.spentAt = none ∧ t.attempts ≤ codeAttempts := by
    intro where_ h
    rw [counting.counted] at h
    cases hset : requireSettings ctx where_ (js "a second factor is being confirmed") with
    | error e =>
      rw [hset] at h
      cases h
    | ok configured =>
      rw [hset] at h
      exact ⟨_, after_countCodeAttempt h⟩
  cases by_ with
  | signInCode | stepUp => exact ⟨_, after_countCodeAttempt h⟩
  | confirm | recover => exact hcounted h

/-! ## Their phases -/

namespace Guesses

inductive Phase where
  | fresh
  /-- Counted, and let through to its code. -/
  | admitted
  | spent

/-- What moves a call on: its count, when it lets it through, and its spending of the challenge. -/
inductive Step (ctx : Context) (challenge : Str) (g : Guess) :
    Phase → (c : Call) → Answer c → Phase → Prop
  | other {p c r} : Step ctx challenge g p c r p
  | pass {t} (unspent : t.spentAt = none) (few : t.attempts ≤ codeAttempts) :
    Step ctx challenge g .fresh (.countAttempt (hashSecret ctx challenge) g.by_.kind)
    (some t) .admitted
  | spend {t at_} (unspent : t.spentAt = none) :
    Step ctx challenge g .admitted (.consumeToken (hashSecret ctx challenge) g.by_.kind at_) (some t)
      .spent

/-- A call that succeeds spent the challenge. -/
def Final : Except Failure GuessAnswer → Phase → Prop
  | .ok _, p => p = .spent
  | .error _, _ => True

section Leads

variable {ctx : Context} {challenge : Str} {g : Guess} {α β : Type} {p : Phase}

/-- What a flow comes to when it answers; how it fails does not matter. -/
abbrev Comes (ctx : Context) (challenge : Str) (g : Guess) (p : Phase) {α : Type} (x : Flow α)
    (Q : α → Phase → Prop) : Prop := Leads exec (Step ctx challenge g) p x Q fun _ _ => True

theorem comes_other (x : Flow α) : Comes ctx challenge g p x fun _ p' => p' = p := by
  induction x with
  | done r => cases r <;> trivial
  | call c k ih => exact fun w r _ => ⟨p, .other, ih r⟩

theorem comes_fail {Q : β → Phase → Prop} (x : Flow α) (e : α → Failure) :
    Comes ctx challenge g p (x >>= fun a => Prog.fail (e a)) Q :=
  Leads.bind ((comes_other x).mono (fun _ _ _ => trivial) fun _ _ h => h)

/-- Any flow, and another after it where it stands. -/
theorem comes_bind {x : Flow α} {k : α → Flow β} {Q : β → Phase → Prop}
    (h : ∀ a, Comes ctx challenge g p (k a) Q) : Comes ctx challenge g p (x >>= k) Q :=
  Leads.bind ((comes_other x).mono (fun a _ hp => hp ▸ h a) fun _ _ h => h)

theorem comes_countCodeAttempt {where_ userType : Str} {kind : TokenKind}
    (hkind : kind = g.by_.kind) :
    Comes ctx challenge g .fresh (countCodeAttempt ctx challenge kind where_ userType)
      fun _ p' => p' = .admitted := by
  subst hkind
  refine Leads.bind (Leads.perform fun w token _ => ?_)
  cases hcounted : token.filter fun t => t.spentAt = none ∧ t.attempts ≤ codeAttempts with
  | some t =>
    obtain ⟨rfl, ht⟩ := Option.filter_eq_some_iff.mp hcounted
    obtain ⟨hspent, hfew⟩ := of_decide_eq_true ht
    exact ⟨_, .pass hspent hfew, comes_other _⟩
  | none =>
    -- not let through: every end is a failure
    refine ⟨_, .other, comes_bind fun now => Leads.bind (Leads.done (fun t ht => ?_)
      fun _ _ => trivial)⟩
    obtain ⟨rfl, hspent⟩ := unspent_of_refuseUnusable ht
    split
    case isTrue => trivial
    case isFalse hfew =>
      rw [Option.filter_some, if_pos (decide_eq_true ⟨hspent, Nat.not_lt.mp hfew⟩)] at hcounted
      cases hcounted

theorem comes_spendOneTime {where_ : Str} {noun : OneTimeNoun} {kind : TokenKind}
    (hkind : kind = g.by_.kind) :
    Comes ctx challenge g .admitted (spendOneTime ctx challenge kind where_ noun)
      fun _ p' => p' = .spent := by
  subst hkind
  intro w now _
  refine ⟨_, .other, fun w token _ => ?_⟩
  cases hused : token.filter fun t => t.spentAt = none with
  | some t =>
    obtain ⟨rfl, ht⟩ := Option.filter_eq_some_iff.mp hused
    exact ⟨_, .spend (of_decide_eq_true ht), comes_other _⟩
  | none =>
    refine ⟨_, .other, Leads.done (fun t ht => ?_) fun _ _ => trivial⟩
    obtain ⟨rfl, hspent⟩ := unspent_of_refuseUnusable ht
    rw [Option.filter_some, if_pos (decide_eq_true hspent)] at hused
    cases hused

theorem comes_openChallenge {type : ResolvedType} {where_ : Str}
    (hkind : g.by_.kind = .secondFactor) :
    Comes ctx challenge g .fresh (openChallenge ctx type challenge where_)
      fun opened p' => p' = .admitted ∧ opened.secret = challenge := by
  refine comes_bind fun configured => Leads.bind ((comes_countCodeAttempt hkind.symm).mono ?_
    fun _ _ h => h)
  rintro ⟨token, attemptsLeft⟩ _ rfl
  refine comes_bind fun record => ?_
  cases record with
  | none => exact comes_fail _ _
  | some record =>
    exact Leads.bind ((comes_other _).mono (fun _ _ hp => ⟨hp, rfl⟩) fun _ _ h => h)

theorem comes_completeSignIn {type : ResolvedType} {where_ : Str} {written : UserRecord}
    (hkind : g.by_.kind = .secondFactor) :
    Comes ctx challenge g .admitted (completeSignIn ctx type challenge written where_)
      fun _ p' => p' = .spent := by
  refine Leads.bind ((comes_spendOneTime hkind.symm).mono ?_ fun _ _ h => h)
  rintro _ _ rfl
  exact comes_other _

theorem comes_confirmChallenge {type : ResolvedType} {code : Str} {at_ : At}
    (hkind : g.by_.kind = .secondFactor) :
    Comes ctx challenge g .fresh (confirmChallenge ctx type challenge code at_)
      fun _ p' => p' = .spent := by
  refine Leads.bind ((comes_openChallenge hkind).mono ?_ fun _ _ h => h)
  rintro opened _ ⟨rfl, hsecret⟩
  refine comes_bind fun now => comes_bind fun accepted => ?_
  cases accepted with
  | none => exact comes_fail _ _
  | some accepted =>
    refine comes_bind fun written => ?_
    rw [hsecret]
    exact comes_completeSignIn hkind

theorem comes_recoverWithCode {type : ResolvedType} {code : Str} {at_ : At}
    (hkind : g.by_.kind = .secondFactor) :
    Comes ctx challenge g .fresh (recoverWithCode ctx type challenge code at_)
      fun _ p' => p' = .spent := by
  refine Leads.bind ((comes_openChallenge hkind).mono ?_ fun _ _ h => h)
  rintro opened _ ⟨rfl, hsecret⟩
  refine comes_bind fun found => ?_
  cases found with
  | none => exact comes_fail _ _
  | some found =>
    refine comes_bind fun now => comes_bind fun written => Leads.bind (Leads.ensure ?_)
    rw [hsecret]
    refine (comes_completeSignIn hkind).mono ?_ fun _ _ _ => ?_
    · rintro _ _ rfl
      exact (comes_other _).mono (fun _ _ h => h) fun _ _ h => h
    · exact (comes_other _).mono (fun _ _ _ => trivial) fun _ _ h => h

theorem comes_confirmCode {type : ResolvedType} {code : Str} {at_ : At}
    (hkind : g.by_.kind = .signInCode) :
    Comes ctx challenge g .fresh (confirmCode ctx type challenge code at_)
      fun _ p' => p' = .spent := by
  refine Leads.bind ((comes_countCodeAttempt hkind.symm).mono ?_ fun _ _ h => h)
  rintro ⟨token, attemptsLeft⟩ _ rfl
  refine comes_bind fun user => ?_
  cases user with
  | none => exact comes_fail _ _
  | some user =>
    dsimp only
    split
    case isFalse => exact comes_fail _ _
    case isTrue =>
      refine Leads.bind ((comes_spendOneTime hkind.symm).mono ?_ fun _ _ h => h)
      rintro _ _ rfl
      exact comes_other _

theorem comes_checkStepUp {type : ResolvedType} {user : UserRecord} {token : TokenRecord}
    {attemptsLeft : ℕ} {code where_ : Str} (hkind : g.by_.kind = .stepUp) :
    Comes ctx challenge g .admitted
      (checkStepUp ctx type user ⟨token, challenge, attemptsLeft⟩ code where_)
      fun _ p' => p' = .spent := by
  have hspends : ∀ {α : Type} {k : TokenRecord → Flow α}, Comes ctx challenge g .admitted
      (spendOneTime ctx challenge .stepUp where_ .challenge >>= k) fun _ p' => p' = .spent := by
    intro α k
    refine Leads.bind ((comes_spendOneTime hkind.symm).mono ?_ fun _ _ h => h)
    rintro _ _ rfl
    exact comes_other _
  unfold checkStepUp checkAppCode checkEmailedCode
  split
  · split
    · exact hspends
    · refine comes_bind fun configured => comes_bind fun left => comes_bind fun now =>
        comes_bind fun accepted => ?_
      cases accepted with
      | none => exact comes_fail _ _
      | some accepted => exact comes_bind fun _ => hspends
  · split
    · exact hspends
    · split
      · exact hspends
      · exact comes_fail _ _

theorem comes_confirmStepUp {type : ResolvedType} {presented : Option Str} {code : Str} {at_ : At}
    (hkind : g.by_.kind = .stepUp) :
    Comes ctx challenge g .fresh (confirmStepUp ctx type presented challenge code at_)
      fun _ p' => p' = .spent := by
  refine Leads.bind ((comes_countCodeAttempt hkind.symm).mono ?_ fun _ _ h => h)
  rintro ⟨token, attemptsLeft⟩ _ rfl
  refine comes_bind fun ⟨session, user⟩ => ?_
  refine Leads.bind ((comes_checkStepUp hkind).mono ?_ fun _ _ h => h)
  rintro _ _ rfl
  exact comes_other _

/-- **A call that succeeds counted its attempt, and then spent the challenge.** -/
theorem follows (ctx : Context) (challenge : Str) (g : Guess) :
    Leads exec (Step ctx challenge g) .fresh (g.run ctx challenge) (fun a => Final (.ok a))
      fun e => Final (.error e) := by
  obtain ⟨by_, type, at_, code⟩ := g
  cases by_ with
  | signInCode => exact Leads.map (comes_confirmCode rfl)
  | confirm => exact Leads.map (comes_confirmChallenge rfl)
  | recover => exact Leads.map (comes_recoverWithCode rfl)
  | stepUp presented => exact Leads.map (comes_confirmStepUp rfl)

end Leads

/-- The phases of any number of them. -/
def protocol (ctx : Context) (challenge : Str) : Protocol (guessService ctx challenge) where
  Phase := Phase
  start _ := .fresh
  Step := Step ctx challenge
  Final _ := Final
  follows := follows ctx challenge

/-! ## What the log says -/

/-- An attempt counted on the unspent challenge: whose, and which. -/
def counted (hash : Str) : Entry Call Answer Guess Failure GuessAnswer → Option (ℕ × ℕ)
  | .called i (.countAttempt h _) (some t) =>
    if h = hash ∧ t.spentAt = none then some (i, t.attempts) else none
  | _ => none

/-- Who spends it. -/
def spender (hash : Str) : Entry Call Answer Guess Failure GuessAnswer → Option ℕ
  | .called i (.consumeToken h _ _) (some t) =>
    if h = hash ∧ t.spentAt = none then some i else none
  | _ => none

def counts (hash : Str) (log : GuessLog) : List (ℕ × ℕ) := log.filterMap (counted hash)

def spenders (hash : Str) (log : GuessLog) : List ℕ := log.filterMap (spender hash)

/-- Those let through to their code. -/
def comparing (hash : Str) (log : GuessLog) : List ℕ :=
  ((counts hash log).filter fun q => q.2 ≤ codeAttempts).map Prod.fst

/-- What an entry says of the log before it. -/
structure Says (hash : Str) (log : GuessLog) (e : Entry Call Answer Guess Failure GuessAnswer) :
    Prop where
  count : ∀ q, counted hash e = some q →
    spenders hash log = [] ∧ 1 ≤ q.2 ∧ ∀ q' ∈ counts hash log, q'.2 < q.2
  spend : ∀ i, spender hash e = some i → spenders hash log = []
  ended : ∀ i a, e = .ended i (.ok a) → i ∈ spenders hash log ∧ i ∈ comparing hash log

section Entries

variable {hash : Str} {log : GuessLog} {e : Entry Call Answer Guess Failure GuessAnswer}

theorem counts_concat (hash : Str) (log : GuessLog)
    (e : Entry Call Answer Guess Failure GuessAnswer) :
    counts hash (log ++ [e]) = counts hash log ++ (counted hash e).toList := by
  rw [counts, List.filterMap_append]
  cases h : counted hash e <;> simp [counts, h]

theorem spenders_concat (hash : Str) (log : GuessLog)
    (e : Entry Call Answer Guess Failure GuessAnswer) :
    spenders hash (log ++ [e]) = spenders hash log ++ (spender hash e).toList := by
  rw [spenders, List.filterMap_append]
  cases h : spender hash e <;> simp [spenders, h]

theorem mem_comparing {i : ℕ} : i ∈ comparing hash log ↔
    ∃ n, (i, n) ∈ counts hash log ∧ n ≤ codeAttempts := by
  simp [comparing]

theorem comparing_append {more : GuessLog} {i : ℕ} (h : i ∈ comparing hash log) :
    i ∈ comparing hash (log ++ more) := by
  obtain ⟨n, hn, hle⟩ := mem_comparing.mp h
  refine mem_comparing.mpr ⟨n, ?_, hle⟩
  rw [counts, List.filterMap_append]
  exact List.mem_append_left _ hn

theorem spenders_append {more : GuessLog} {i : ℕ} (h : i ∈ spenders hash log) :
    i ∈ spenders hash (log ++ more) := by
  rw [spenders, List.filterMap_append]
  exact List.mem_append_left _ h

theorem counted_eq_some {q : ℕ × ℕ} (h : counted hash e = some q) :
    ∃ kind t, e = .called q.1 (.countAttempt hash kind) (some t) ∧ t.spentAt = none ∧
      t.attempts = q.2 := by
  unfold counted at h
  split at h
  case h_1 i tokenHash kind t =>
    split at h
    case isTrue heq =>
      obtain ⟨rfl, hspent⟩ := heq
      cases h
      exact ⟨kind, t, rfl, hspent, rfl⟩
    case isFalse => cases h
  case h_2 => cases h

theorem spender_eq_some {i : ℕ} (h : spender hash e = some i) :
    ∃ kind at_ t, e = .called i (.consumeToken hash kind at_) (some t) ∧ t.spentAt = none := by
  unfold spender at h
  split at h
  case h_1 i' tokenHash kind at_ t =>
    split at h
    case isTrue heq =>
      obtain ⟨rfl, hspent⟩ := heq
      cases h
      exact ⟨kind, at_, t, rfl, hspent⟩
    case isFalse => cases h
  case h_2 => cases h

end Entries

/-! ## The invariant -/

/-- The counts went up by one, and stopped once the challenge was spent. -/
structure Guessed (hash : Str) (w : World) (log : GuessLog) (m : ℕ → Option (Guess × Phase)) :
    Prop where
  tells : Tells (Says hash) log
  spent : spenders hash log ≠ [] → IsSpent w.tokens hash
  le_attempts : ∀ q ∈ counts hash log, q.2 ≤ attemptsAt w.tokens hash
  stands : ∀ i g p, m i = some (g, p) →
    (p ≠ .fresh → i ∈ comparing hash log) ∧ (p = .spent → i ∈ spenders hash log)

section Guessed

variable {ctx : Context} {challenge hash : Str} {w w' : World} {log : GuessLog}
  {m : ℕ → Option (Guess × Phase)} {i : ℕ} {g : Guess} {p p' : Phase} {c : Call} {r : Answer c}

/-- An entry that counts and spends nothing of the challenge. -/
theorem Guessed.concat (h : Guessed hash w log m) {e : Entry Call Answer Guess Failure GuessAnswer}
    (hcounted : counted hash e = none) (hspender : spender hash e = none)
    (hended : ∀ i a, e = .ended i (.ok a) → i ∈ spenders hash log ∧ i ∈ comparing hash log)
    {m' : ℕ → Option (Guess × Phase)}
    (hm : ∀ i g p, m' i = some (g, p) → p = .fresh ∨ m i = some (g, p)) :
    Guessed hash w (log ++ [e]) m' where
  tells := h.tells.concat
    { count := fun q hq => nomatch hcounted.symm.trans hq
      spend := fun i hi => nomatch hspender.symm.trans hi
      ended := hended }
  spent hne := h.spent (by simpa [spenders_concat, hspender] using hne)
  le_attempts q hq := h.le_attempts q (by simpa [counts_concat, hcounted] using hq)
  stands i g p hi := by
    obtain rfl | hi := hm i g p hi
    · exact ⟨fun hne => absurd rfl hne, nofun⟩
    · exact ⟨fun hne => comparing_append ((h.stands i g p hi).1 hne),
        fun hp => spenders_append ((h.stands i g p hi).2 hp)⟩

theorem Guessed.step (h : Guessed (hashSecret ctx challenge) w log m) (hi : m i = some (g, p))
    (hexec : exec c w = (r, w')) (hstep : Step ctx challenge g p c r p') :
    Guessed (hashSecret ctx challenge) w' (log ++ [.called i c r])
      (Function.update m i (some (g, p'))) where
  tells := h.tells.concat
    { count := fun q hq => by
        obtain ⟨kind, t, he, hspent, hn⟩ := counted_eq_some hq
        cases he
        obtain ⟨hunspent, hattempts, -⟩ := exec_countAttempt_unspent hexec hspent
        refine ⟨by_contra fun hne => hunspent (h.spent hne), by omega, fun q' hq' => ?_⟩
        have := h.le_attempts q' hq'
        omega
      spend := fun j hj => by
        obtain ⟨kind, at_, t, he, hspent⟩ := spender_eq_some hj
        cases he
        exact by_contra fun hne => (exec_consumeToken_unspent hexec hspent).1 (h.spent hne)
      ended := by simp }
  spent hne := by
    by_cases hold : spenders (hashSecret ctx challenge) log = []
    · rw [spenders_concat, hold, List.nil_append] at hne
      cases hs : spender (hashSecret ctx challenge) (.called i c r) with
      | none => exact absurd (by rw [hs]; rfl) hne
      | some j =>
        obtain ⟨kind, at_, t, he, hspent⟩ := spender_eq_some hs
        cases he
        exact (exec_consumeToken_unspent hexec hspent).2
    · exact (kept_exec hexec).isSpent (h.spent hold)
  le_attempts q hq := by
    rw [counts_concat] at hq
    obtain hq | hq := List.mem_append.mp hq
    · exact (h.le_attempts q hq).trans (attemptsAt_exec_le hexec _)
    · obtain ⟨kind, t, he, hspent, hn⟩ := counted_eq_some (Option.mem_toList.mp hq)
      cases he
      obtain ⟨-, -, hget⟩ := exec_countAttempt_unspent hexec hspent
      rw [attemptsAt, hget, Option.elim_some, hn]
  stands j g' q hj := by
    obtain ⟨rfl, heq⟩ | ⟨-, hj⟩ := update_eq_some.mp hj
    · cases heq
      have hold := h.stands _ _ _ hi
      cases hstep with
      | other =>
        exact ⟨fun hne => comparing_append (hold.1 hne), fun hp => spenders_append (hold.2 hp)⟩
      | @pass t unspent few =>
        refine ⟨fun _ => mem_comparing.mpr ⟨t.attempts, ?_, few⟩, by simp⟩
        rw [counts_concat]
        refine List.mem_append_right _ (Option.mem_toList.mpr ?_)
        exact if_pos ⟨rfl, unspent⟩
      | spend unspent =>
        refine ⟨fun _ => comparing_append (hold.1 (by simp)), fun _ => ?_⟩
        rw [spenders_concat]
        refine List.mem_append_right _ (Option.mem_toList.mpr ?_)
        exact if_pos ⟨rfl, unspent⟩
    · have hold := h.stands _ _ _ hj
      exact ⟨fun hne => comparing_append (hold.1 hne), fun hp => spenders_append (hold.2 hp)⟩

theorem keeps (ctx : Context) (challenge : Str) :
    (protocol ctx challenge).Keeps (fun _ => True) (Guessed (hashSecret ctx challenge)) where
  drift {_ _ _ e} h _ := by cases e <;> exact { h with }
  began {_ _ m i f} h hi _ := h.concat rfl rfl (by nofun) fun j g p hj => by
    obtain ⟨-, heq⟩ | ⟨-, hj⟩ := update_eq_some.mp hj
    · cases heq
      exact Or.inl rfl
    · exact Or.inr hj
  called h hi _ hexec hstep := h.step hi hexec hstep
  ended {_ _ _ _ _ _ r} h hi hfinal _ := h.concat rfl rfl (by
    rintro _ _ ⟨⟩
    obtain rfl : _ = Phase.spent := hfinal
    exact ⟨(h.stands _ _ _ hi).2 rfl, (h.stands _ _ _ hi).1 nofun⟩) fun _ _ _ => Or.inr

theorem Guessed.start : Guessed hash w [] fun _ => none where
  tells := Tells.nil
  spent h := absurd rfl h
  le_attempts := nofun
  stands := nofun

/-! ## What the counts say -/

theorem Guessed.increasing (h : Guessed hash w log m) :
    (counts hash log).Pairwise fun q q' => q.2 < q'.2 :=
  h.tells.pairwise fun _ _ q htold hq q' hq' => (htold.count q hq).2.2 q' hq'

theorem Guessed.one_le (h : Guessed hash w log m) {q : ℕ × ℕ} (hq : q ∈ counts hash log) :
    1 ≤ q.2 := by
  obtain ⟨e, he, hcounted⟩ := List.mem_filterMap.mp hq
  obtain ⟨l₁, l₂, -, htold⟩ := h.tells.mem he
  exact (htold.count q hcounted).2.1

/-- No more are let through than a challenge takes. -/
theorem Guessed.comparing_le (h : Guessed hash w log m) :
    (comparing hash log).length ≤ codeAttempts := by
  have hfilter := h.increasing.filter fun q => q.2 ≤ codeAttempts
  have hnodup : (((counts hash log).filter fun q => q.2 ≤ codeAttempts).map Prod.snd).Nodup :=
    List.pairwise_map.mpr (hfilter.imp fun hlt => Nat.ne_of_lt hlt)
  have hlength := length_le_of_nodup hnodup fun n hn => by
    obtain ⟨q, hq, rfl⟩ := List.mem_map.mp hn
    obtain ⟨hmem, hle⟩ := List.mem_filter.mp hq
    exact ⟨h.one_le hmem, of_decide_eq_true hle⟩
  rwa [List.length_map, ← List.length_map Prod.fst] at hlength

/-- The challenge is spent once. -/
theorem Guessed.spender_unique (h : Guessed hash w log m) {i j : ℕ} (hi : i ∈ spenders hash log)
    (hj : j ∈ spenders hash log) : i = j := by
  have hnone : (spenders hash log).Pairwise fun _ _ => False :=
    h.tells.pairwise fun l _ i htold hi j hj => by
      have hnil : spenders hash l = [] := htold.spend i hi
      rw [spenders] at hnil
      rw [hnil] at hj
      cases hj
  match hlist : spenders hash log, hnone with
  | [], _ => rw [hlist] at hi; cases hi
  | [k], _ =>
    rw [hlist] at hi hj
    rw [List.mem_singleton.mp hi, List.mem_singleton.mp hj]
  | _ :: k :: _, hnone => exact (List.rel_of_pairwise_cons hnone List.mem_cons_self).elim

theorem Guessed.of_ok (h : Guessed hash w log m) {i : ℕ} {a : GuessAnswer}
    (hi : .ended i (.ok a) ∈ log) : i ∈ spenders hash log ∧ i ∈ comparing hash log := by
  obtain ⟨l₁, l₂, rfl, htold⟩ := h.tells.mem hi
  obtain ⟨hspender, hcomparing⟩ := htold.ended i a rfl
  exact ⟨spenders_append hspender, comparing_append hcomparing⟩

/-- Nothing is counted within the limit after a success, or after the last attempt. -/
theorem Guessed.counted_before (h : Guessed hash w log m) {l₁ l₂ : GuessLog} (hlog : log = l₁ ++ l₂)
    (hover : (∃ i a, .ended i (.ok a) ∈ l₁) ∨ ∃ q ∈ counts hash l₁, codeAttempts ≤ q.2)
    {j : ℕ} (hj : j ∈ comparing hash log) : ∃ e ∈ l₁, e.thread = j := by
  obtain ⟨n, hn, hle⟩ := mem_comparing.mp hj
  obtain ⟨e, he, hcounted⟩ := List.mem_filterMap.mp hn
  obtain ⟨kind, t, rfl, -, -⟩ := counted_eq_some hcounted
  rw [hlog] at he
  refine (List.mem_append.mp he).elim (fun he => ⟨_, he, rfl⟩) fun he => ?_
  obtain ⟨l₃, l₄, rfl⟩ := List.append_of_mem he
  have htold := h.tells (l₁ ++ l₃) _ l₄ (by rw [hlog, List.append_assoc])
  obtain ⟨hnone, -, hlt⟩ := htold.count _ hcounted
  obtain ⟨i, a, hi⟩ | ⟨q, hq, hq5⟩ := hover
  · obtain ⟨l₅, l₆, rfl⟩ := List.append_of_mem hi
    have htold := h.tells l₅ _ _ (hlog.trans (List.append_assoc ..))
    have hspender : i ∈ spenders hash ((l₅ ++ .ended i (.ok a) :: l₆) ++ l₃) := by
      rw [List.append_assoc]
      exact spenders_append (htold.ended i a rfl).1
    rw [hnone] at hspender
    cases hspender
  · have hmem : q ∈ counts hash (l₁ ++ l₃) := by
      rw [counts, List.filterMap_append]
      exact List.mem_append_left _ hq
    exact absurd (hlt q hmem) (by omega)

end Guessed

/-- **Whoever was not let through is still before its code**, or failed before it. -/
theorem comparing_or_before (ctx : Context) (challenge : Str) (w : World)
    (moves : List (Move Drift Guess)) {i : ℕ} {g : Guess} {x : Flow GuessAnswer}
    (hi : ((guessService ctx challenge).run w moves).threads[i]? = some (g, x)) :
    let log := ((guessService ctx challenge).run w moves).log
    i ∈ comparing (hashSecret ctx challenge) log ∨
      ∃ y, After (counting ctx challenge g.by_ g.type g.at_) (answersTo i log) y ∧
        ∀ a, y ≠ .done (.ok a) := by
  have h := (guessService ctx challenge).after w moves i g x hi
  obtain ⟨by_, type, at_, code⟩ := g
  obtain ⟨k, hk⟩ := Guess.run_eq ctx challenge by_ type at_
  rw [show (guessService ctx challenge).code ⟨by_, type, at_, code⟩ = _ from hk code] at h
  obtain hbefore | ⟨before, rest, a, hanswers, ha⟩ := h.bind_cases
  · exact Or.inr hbefore
  · obtain ⟨kind, t, hmem, hspent, hfew⟩ := after_counting ha
    have hcalled := mem_answersTo.mp (hanswers ▸ List.mem_append_left rest hmem)
    exact Or.inl (mem_comparing.mpr
      ⟨t.attempts, List.mem_filterMap.mpr ⟨_, hcalled, if_pos ⟨rfl, hspent⟩⟩, hfew⟩)

end Guesses

open Guesses in
/-- **A challenge takes five guesses, and one success.**  However the calls carrying it interleave:
each counts its attempt before it reads its code, and is let through, or still before it, or failed
before it; no more than five are let through to their code, and only one of these succeeds; none
that begins after a success, or after a fifth attempt was counted, is let through, or succeeds. -/
theorem five_guesses (ctx : Context) (challenge : Str) (w : World)
    (moves : List (Move Drift Guess)) :
    let log := ((guessService ctx challenge).run w moves).log
    let hash := hashSecret ctx challenge
    (∀ by_ type at_, ∃ k : Str → TokenRecord × ℕ → Flow GuessAnswer, ∀ code,
      Guess.run ctx challenge ⟨by_, type, at_, code⟩ =
        counting ctx challenge by_ type at_ >>= k code) ∧
    (∀ i g x, ((guessService ctx challenge).run w moves).threads[i]? = some (g, x) →
      i ∈ comparing hash log ∨
        ∃ y, After (counting ctx challenge g.by_ g.type g.at_) (answersTo i log) y ∧
          ∀ a, y ≠ .done (.ok a)) ∧
    (comparing hash log).length ≤ 5 ∧
    (∀ i a, .ended i (.ok a) ∈ log → i ∈ comparing hash log) ∧
    (∀ i j a b, .ended i (.ok a) ∈ log → .ended j (.ok b) ∈ log → i = j) ∧
    ∀ l₁ l₂ j g, log = l₁ ++ .began j g :: l₂ →
      ((∃ i a, .ended i (.ok a) ∈ l₁) ∨ ∃ q ∈ counts hash l₁, 5 ≤ q.2) →
      j ∉ comparing hash log ∧ ∀ a, .ended j (.ok a) ∉ log := by
  obtain ⟨m, -, hinv⟩ := (keeps ctx challenge).run Guessed.start fun _ (_ : _ ∈ moves) => trivial
  have horderly := (guessService ctx challenge).orderly w moves
  refine ⟨Guess.run_eq ctx challenge, fun i g x hi => comparing_or_before ctx challenge w moves hi,
    hinv.comparing_le, fun i a hi => (hinv.of_ok hi).2,
    fun i j a b hi hj => hinv.spender_unique (hinv.of_ok hi).1 (hinv.of_ok hj).1,
    fun l₁ l₂ j g hlog hover => ?_⟩
  have hnot : j ∉ comparing (hashSecret ctx challenge)
      ((guessService ctx challenge).run w moves).log := fun hj => by
    obtain ⟨e, he, hej⟩ := hinv.counted_before hlog hover hj
    exact horderly.first l₁ _ l₂ hlog j g rfl e he hej
  exact ⟨hnot, fun a hj => hnot (hinv.of_ok hj).2⟩

/-! ## A code guessed -/

/-- Ada, her e-mail proved. -/
def provedAda : UserRecord := { ada with emailVerifiedAt := some 0 }

/-- A code sent to her. -/
def sentCode : TokenRecord where
  tokenHash := js "challenge"
  kind := .signInCode
  userId := ada.id
  address := js "ada@clinic.test"
  codeHash := some (js "challenge123456")
  attempts := 0
  expiresAt := 600000
  spentAt := none
  createdAt := 0

def codeSent : World := ⟨[(ada.id, provedAda)], [], [(js "challenge", sentCode)], 0, 0, false⟩

/-- A code typed. -/
def typed (code : Str) : Guess := ⟨.signInCode, patient, (js "patient." ++ ·), code⟩

/-- A wrong one, the right one, and the right one again. -/
def typedThrice : List (Move Drift Guess) :=
  [.begin (typed (js "000000")), .step 0, .begin (typed (js "123456"))] ++
    List.replicate 9 (.step 1) ++ List.replicate 2 (.step 0) ++ [.begin (typed (js "123456"))] ++
    List.replicate 3 (.step 2)

open Guesses in
/-- The first two are let through, and only the right one succeeds; the last compares nothing. -/
theorem five_guesses_thrice :
    let log := ((guessService clinic (js "challenge")).run codeSent typedThrice).log
    comparing (js "challenge") log = [0, 1] ∧ (∀ a, .ended 0 (.ok a) ∉ log) ∧
      ∀ a, .ended 2 (.ok a) ∉ log := by
  obtain ⟨-, -, -, -, honce, hafter⟩ := five_guesses clinic (js "challenge") codeSent typedThrice
  obtain ⟨a, ha⟩ : ∃ a, .ended 1 (.ok a) ∈
      ((guessService clinic (js "challenge")).run codeSent typedThrice).log.take 16 :=
    ⟨_, List.mem_of_getElem? (i := 12) rfl⟩
  have hfirst : ∀ b, .ended 0 (.ok b) ∉
      ((guessService clinic (js "challenge")).run codeSent typedThrice).log := fun b hb =>
    absurd (honce 1 0 a b (List.mem_of_mem_take ha) hb) (by decide)
  exact ⟨by decide +kernel, hfirst, (hafter _ _ 2 (typed (js "123456"))
    (List.take_append_drop 16 _).symm (Or.inl ⟨1, a, ha⟩)).2⟩

end Janus.Auth
