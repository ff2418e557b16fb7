import Janus.Auth.Enrolment
import Janus.Auth.History
import Janus.Auth.Phases

/-!
# Auth/FactorWrites — what each flow writes on a second factor

    before seen ──write──▸ wrote ──session──▸ opened

Seven flows write a factor, each once, on the record it read.  Only an enrolment and a disabling put
another factor there; an accepted code moves the last step up, and a recovery code used is dropped.
-/

namespace Janus.Auth

open Js Insertion Calls

/-! ## The flows -/

inductive FactorFlow where
  | enroll (type : ResolvedType) (user : UserRef) (ifVersion : Option ℕ) (at_ : At)
  | activate (type : ResolvedType) (user : UserRef) (code : Str) (ifVersion : Option ℕ) (at_ : At)
  | regenerate (type : ResolvedType) (user : UserRef) (code : Str) (ifVersion : Option ℕ) (at_ : At)
  | disable (type : ResolvedType) (user : UserRef) (ifVersion : Option ℕ) (at_ : At)
  | confirm (type : ResolvedType) (challenge code : Str) (at_ : At)
  | recover (type : ResolvedType) (challenge code : Str) (at_ : At)
  | stepUp (type : ResolvedType) (presented : Option Str) (challenge code : Str) (at_ : At)

inductive FactorAnswer where
  | enrolled (enrolment : SecondFactorEnrolment)
  | issued (codes : RecoveryCodesIssued)
  | disabled (user : User)
  | signedIn (result : SignInResult)
  | recovered (result : RecoveredSignIn)
  | confirmed (session : SessionRecord)

def FactorFlow.code (ctx : Context) : FactorFlow → Flow FactorAnswer
  | .enroll type user ifVersion at_ => .enrolled <$> enrollFactor ctx type user ifVersion at_
  | .activate type user code ifVersion at_ =>
    .issued <$> activateFactor ctx type user code ifVersion at_
  | .regenerate type user code ifVersion at_ =>
    .issued <$> regenerateRecoveryCodes ctx type user code ifVersion at_
  | .disable type user ifVersion at_ => .disabled <$> disableFactor ctx type user ifVersion at_
  | .confirm type challenge code at_ => .signedIn <$> confirmChallenge ctx type challenge code at_
  | .recover type challenge code at_ => .recovered <$> recoverWithCode ctx type challenge code at_
  | .stepUp type presented challenge code at_ =>
    .confirmed <$> confirmStepUp ctx type presented challenge code at_

/-- Any number of them, over one store. -/
def factorService (ctx : Context) :
    Service Call Answer World Drift FactorFlow Failure FactorAnswer where
  exec := exec
  drift := drift
  code := FactorFlow.code ctx

/-- The log of such a run. -/
abbrev FactorEntry := Entry Call Answer FactorFlow Failure FactorAnswer

/-! ## What each may write -/

namespace FactorWrites

/-- The step at which the code was shown, of the secret the factor seals. -/
def ShownAt (ctx : Context) (userId code : Str) (factor : SecondFactorRecord) (plain : Str)
    (step : ℕ) : Prop :=
  ∃ sealer keyId secret now where_, unseal_ ctx sealer factor.secret userId where_ =
    .ok (plain, keyId) ∧
    fromBase32 plain = .ok secret ∧ matchStep ctx secret code now factor.lastStep = .ok (some step)

/-- A text `seal_` makes of a secret. -/
def SealedAs (ctx : Context) (userId plain sealed : Str) : Prop :=
  ∃ (sealer : Sealer) (drawn : ℕ),
    let key := (get sealer.keys sealer.sealWith).get sealer.sealWith_held
    let iv := ctx.runtime.iv drawn
    sealed = js "v1." ++ sealer.sealWith ++ js "." ++ ctx.runtime.toBase64url iv ++ js "." ++
      ctx.runtime.toBase64url (ctx.runtime.encrypt key iv userId plain)

/-- A code accepted: the step it was shown at, and the secret as it was, or sealed again. -/
def Accepts (ctx : Context) (userId code : Str) (factor accepted : SecondFactorRecord) : Prop :=
  ∃ plain step secret, ShownAt ctx userId code factor plain step ∧
    (secret = factor.secret ∨ SealedAs ctx userId plain secret) ∧
    accepted = { factor with lastStep := some step, secret := secret }

/-- The codes that so many draws make, ten for each. -/
def codesOf (ctx : Context) : ℕ → List ℕ → List Str
  | 0, _ => []
  | n + 1, drawn =>
    let code := (drawn.take 10).map fun drawn =>
      recoveryAlphabet.getD (ctx.runtime.randomInt drawn % recoveryAlphabet.length) 48
    (code.take 5 ++ 45 :: code.drop 5) :: codesOf ctx n (drawn.drop 10)

/-- The hashes of the codes minted of these draws. -/
def Minted (ctx : Context) (userId : Str) (drawn : List ℕ) (hashes : List Str) : Prop :=
  drawn.length = 10 * recoveryCodeCount ∧
    ∃ sealer, hashes = (codesOf ctx recoveryCodeCount drawn).map
    (hashRecoveryCode ctx sealer userId)

/-- A recovery code's hash, found for what was typed. -/
def Found (ctx : Context) (userId : Str) (hashes : List Str) (typed : Str) (k : ℕ) (hash : Str) :
    Prop :=
  ∃ (sealer : Sealer) (where_ : Str), hashes[k]? = some hash ∧
    recoveryHashMatches ctx sealer userId hash (readRecoveryCode ctx typed) where_ = .ok true

/-- The factor a flow that drew these writes over the one it read. -/
def Rewrites (ctx : Context) (userId : Str) (drawn : List ℕ) (old : Option SecondFactorRecord) :
    FactorFlow → Option SecondFactorRecord → Prop
  | .enroll .., new => isActive old = false ∧ ∃ sealed, new = some ⟨sealed, none, none, []⟩
  | .disable .., new => new = none
  | .activate _ _ code _ _, new => ∃ factor accepted at_ hashes, old = some factor ∧
    Accepts ctx userId code factor accepted ∧ Minted ctx userId drawn hashes ∧
    new = some { accepted with confirmedAt := some at_, recoveryCodes := hashes }
  | .regenerate _ _ code _ _, new => ∃ factor accepted hashes, old = some factor ∧
    Accepts ctx userId code factor accepted ∧ Minted ctx userId drawn hashes ∧
    new = some { accepted with recoveryCodes := hashes }
  | .confirm _ _ code _, new | .stepUp _ _ _ code _, new => ∃ factor accepted, old = some factor ∧
    Accepts ctx userId code factor accepted ∧ new = some accepted
  | .recover _ _ code _, new => ∃ factor k hash, old = some factor ∧
    Found ctx userId factor.recoveryCodes code k hash ∧
    new = some { factor with recoveryCodes := factor.recoveryCodes.eraseIdx k }

/-- …and nothing else of the record. -/
def Writes (ctx : Context) (f : FactorFlow) (drawn : List ℕ) (record : UserRecord)
    (patch : UserPatch) : Prop :=
  (patch.active = none ∧ patch.fields = none ∧ patch.logins = none ∧ patch.avatar = none) ∧
    patch.password = none ∧ patch.emailVerifiedAt = none ∧ ∃ new, patch.secondFactor = some new ∧
    Rewrites ctx record.id drawn record.secondFactor f new

/-! ## The phases -/

inductive Phase where
  | before (seen : Option UserRecord) (drawn : List ℕ)
  /-- A step-up whose challenge has a code of its own. -/
  | emailed
  | wrote
  | opened

/-- A call that writes no user, opens no session and tells of nothing replaced. -/
def Idle : Call → Prop
  | .updateUser .. | .insertSession _ => False
  | .emit event .. => event.replaces = false
  | _ => True

inductive Step (ctx : Context) : FactorFlow → Phase → (c : Call) → Answer c → Phase → Prop
  | idle {f p c r} (h : Idle c) : Step ctx f p c r p
  | drew {f seen drawn} (n : ℕ) :
    Step ctx f (.before seen drawn) .draw n (.before seen (drawn ++ [n]))
  | read {f seen drawn id} (record : UserRecord) :
    Step ctx f (.before seen drawn) (.findUser id) (some record) (.before (some record) drawn)
  | refused {f p id patch v} (e : Failure) : Step ctx f p (.updateUser id patch v) (.error e) p
  | write {f record drawn patch new} (h : Writes ctx f drawn record patch) :
    Step ctx f (.before (some record) drawn) (.updateUser record.id patch record.version) (.ok new)
      .wrote
  | enter {f session} : Step ctx f .wrote (.insertSession session) () .opened
  | emailed {type presented challenge code at_ drawn hash kind t} (h : t.codeHash ≠ none) :
    Step ctx (.stepUp type presented challenge code at_) (.before none drawn)
      (.countAttempt hash kind) (some t) .emailed

/-- A flow that succeeds wrote; a sign-in opened its session after. -/
def Final : FactorFlow → Except Failure FactorAnswer → Phase → Prop
  | _, .error _, _ => True
  | .confirm .., .ok _, p | .recover .., .ok _, p => p = .opened
  | .stepUp .., .ok _, p => p = .wrote ∨ p = .emailed
  | _, .ok _, p => p = .wrote

/-! ## What the codes say -/

section Codes

variable {ctx : Context}

theorem matchSteps_some {secret : List Byte} {code : Str} {lastStep : Option ℕ} {steps : List ℤ}
    {step : ℤ} (h : matchSteps ctx secret code lastStep steps = .ok (some step)) :
    0 ≤ step ∧ ∀ last, lastStep = some last → (last : ℤ) < step := by
  induction steps with
  | nil => cases h
  | cons first steps ih =>
    obtain ⟨shown, hshown, h⟩ := Except.bind_ok.mp h
    obtain ⟨later, hlater, h⟩ := Except.bind_ok.mp h
    have h := Except.pure_ok.mp h
    split at h
    case isTrue hmatch =>
      cases h
      refine ⟨?_, fun last hlast => ?_⟩
      · by_contra hneg
        rw [codeAt, if_pos (not_le.mp hneg)] at hshown
        cases hshown
      · have hfresh := hmatch.2
        rw [hlast] at hfresh
        exact of_decide_eq_true hfresh
    case isFalse => exact ih (h ▸ hlater)

/-- A step matched is later than the last one used. -/
theorem matchStep_some {secret : List Byte} {code : Str} {now : Time}
    {lastStep : Option ℕ} {step : ℕ}
    (h : matchStep ctx secret code now lastStep = .ok (some step)) {last : ℕ}
    (hlast : lastStep = some last) : last < step := by
  rw [matchStep] at h
  split at h
  case isFalse => cases h
  case isTrue =>
    obtain ⟨matched, hmatched, h⟩ := Except.bind_ok.mp h
    obtain ⟨step', rfl, rfl⟩ := Option.map_eq_some_iff.mp (Except.pure_ok.mp h)
    obtain ⟨hnonneg, hfresh⟩ := matchSteps_some hmatched
    have := hfresh last hlast
    omega

theorem found_of_findRecoveryCode {sealer : Sealer} {userId typed where_ : Str} {hashes : List Str}
    {k : ℕ} (h : findRecoveryCode ctx sealer userId hashes typed where_ = .ok (some k)) :
    ∃ hash, Found ctx userId hashes typed k hash := by
  obtain ⟨matched, hmatched, h⟩ := Except.bind_ok.mp h
  have hk := Except.pure_ok.mp h
  obtain ⟨hlt, hget, -⟩ := List.findIdx?_eq_some_iff_getElem.mp hk
  obtain ⟨hash, hhash, hmatches⟩ := List.mapM_ok hmatched
    (List.getElem?_eq_some_iff.mpr ⟨hlt, eq_of_beq hget⟩)
  exact ⟨hash, sealer, where_, hhash, hmatches⟩

end Codes

/-! ## What each flow leads to -/

section Leads

variable {ctx : Context} {f : FactorFlow} {α β : Type} {p : Phase} {seen : Option UserRecord}
  {drawn : List ℕ}
  {type : ResolvedType} {where_ : Str}

abbrev Comes (ctx : Context) (f : FactorFlow) (p : Phase) {α : Type} (x : Flow α)
    (Q : α → Phase → Prop) : Prop := Leads exec (Step ctx f) p x Q fun _ _ => True

/-- A flow that writes no user and opens no session. -/
abbrev Idles {α : Type} (x : Flow α) : Prop := Only Idle (fun _ => True) x

theorem idles_call {c : Call} (h : Idle c) : Idles (call c) := Only.perform h

theorem idles_done {r : Except Failure α} : Idles (Prog.done r) := Only.done fun _ _ => trivial

/-- Every quiet flow is idle. -/
theorem idles_of_calm {x : Flow α} (h : Calm ctx x) : Idles x :=
  h.imp (fun c hc => by cases c <;> trivial) fun _ _ => trivial

theorem comes_idle {x : Flow α} (hx : Idles x) : Comes ctx f p x fun _ p' => p' = p :=
  (Leads.of_only (J := fun p' => p' = p) (fun _ _ _ hp hc => ⟨_, .idle hc, hp⟩) hx rfl).mono
    (fun _ _ h => h) fun _ _ _ => trivial

/-- An idle flow, and another after it where it stands. -/
theorem comes_bind {x : Flow α} {k : α → Flow β} {Q : β → Phase → Prop} (hx : Idles x)
    (hk : ∀ a, Comes ctx f p (k a) Q) : Comes ctx f p (x >>= k) Q :=
  Leads.bind ((comes_idle hx).mono (fun a _ h => h ▸ hk a) fun _ _ h => h)

theorem comes_fail {x : Flow α} {e : α → Failure} {Q : β → Phase → Prop} (hx : Idles x) :
    Comes ctx f p (x >>= fun a => Prog.fail (e a)) Q := comes_bind hx fun _ => trivial

/-- What is drawn is kept. -/
theorem comes_drawUnits (n : ℕ) : Comes ctx f (.before seen drawn) (drawUnits ctx n)
    fun units p' => ∃ fresh, p' = .before seen (drawn ++ fresh) ∧ fresh.length = n ∧
      units = fresh.map fun drawn =>
        recoveryAlphabet.getD (ctx.runtime.randomInt drawn % recoveryAlphabet.length) 48 := by
  induction n generalizing drawn with
  | zero => exact ⟨[], by rw [List.append_nil], rfl, rfl⟩
  | succ n ih =>
    refine Leads.bind (Leads.perform fun w first _ => ⟨_, .drew first, Leads.bind (ih.mono ?_ ?_)⟩)
    · rintro units _ ⟨fresh, rfl, rfl, rfl⟩
      exact ⟨first :: fresh, by rw [List.append_assoc, List.singleton_append], rfl, rfl⟩
    · exact fun _ _ h => h

theorem comes_mintCodes (n : ℕ) : Comes ctx f (.before seen drawn) (mintCodes ctx n)
    fun codes p' => ∃ fresh, p' = .before seen (drawn ++ fresh) ∧ fresh.length = 10 * n ∧
      codes = codesOf ctx n fresh := by
  induction n generalizing drawn with
  | zero => exact ⟨[], by rw [List.append_nil], rfl, rfl⟩
  | succ n ih =>
    refine Leads.bind ((comes_drawUnits 10).mono ?_ fun _ _ h => h)
    rintro code _ ⟨first, rfl, hfirst, rfl⟩
    refine Leads.bind (ih.mono ?_ fun _ _ h => h)
    rintro codes _ ⟨fresh, rfl, hfresh, rfl⟩
    refine ⟨first ++ fresh, by rw [List.append_assoc], by rw [List.length_append]; omega, ?_⟩
    rw [codesOf, List.take_left' hfirst, List.drop_left' hfirst]

theorem comes_mintRecoveryCodes : Comes ctx f (.before seen []) (mintRecoveryCodes ctx)
    fun codes p' => ∃ drawn, p' = .before seen drawn ∧ drawn.length = 10 * recoveryCodeCount ∧
      codes = codesOf ctx recoveryCodeCount drawn := comes_mintCodes recoveryCodeCount

theorem comes_seal {sealer : Sealer} {plain userId : Str} :
    Comes ctx f p (seal_ ctx sealer plain userId)
      fun sealed p' => p' = p ∧ SealedAs ctx userId plain sealed := by
  refine Leads.bind (Leads.map (Leads.perform fun w n _ => ⟨p, .idle trivial, ?_⟩))
  exact ⟨rfl, sealer, n, rfl⟩

theorem idles_countAppCodeAttempt {sealer : Sealer} {record : UserRecord} :
    Idles (countAppCodeAttempt ctx sealer record where_) := by
  refine Only.bind ?_ fun count => ?_
  · exact only_countInWindow trivial (fun _ _ => trivial) (fun _ _ => trivial) trivial
  · split <;> trivial

theorem comes_acceptCode {configured : SecondFactorSettings} {record : UserRecord}
    {factor : SecondFactorRecord} {code : Str} {now : Time} :
    Comes ctx f p (acceptCode ctx configured record factor code now where_)
      fun a p' => p' = p ∧ ∀ accepted, a = some accepted →
        Accepts ctx record.id code factor accepted := by
  refine Leads.bind (Leads.done (fun ⟨plain, keyId⟩ hplain => ?_) fun _ _ => trivial)
  refine Leads.bind (Leads.done (fun secret hsecret => ?_) fun _ _ => trivial)
  refine Leads.bind (Leads.done (fun step hstep => ?_) fun _ _ => trivial)
  cases step with
  | none => exact ⟨rfl, nofun⟩
  | some step =>
    have hshown : ShownAt ctx record.id code factor plain step :=
      ⟨configured.sealer, keyId, secret, now, where_, hplain, hsecret, hstep⟩
    have hsealed : Comes ctx f p (if keyId = configured.sealer.sealWith then pure factor.secret
        else seal_ ctx configured.sealer plain record.id) fun sealed p' => p' = p ∧
          (sealed = factor.secret ∨ SealedAs ctx record.id plain sealed) := by
      split
      · exact ⟨rfl, Or.inl rfl⟩
      · exact comes_seal.mono (fun _ _ h => ⟨h.1, Or.inr h.2⟩) fun _ _ h => h
    refine Leads.bind (hsealed.mono ?_ fun _ _ h => h)
    rintro sealed _ ⟨rfl, h⟩
    refine ⟨rfl, ?_⟩
    rintro _ ⟨⟩
    exact ⟨plain, step, sealed, hshown, h, rfl⟩

theorem comes_findRecord {id : Str} {name : Option Str} :
    Comes ctx f (.before seen drawn) (findRecord id name) (fun record p' => match record with
      | some record => p' = .before (some record) drawn
      | none => ∃ seen', p' = .before seen' drawn) := by
  rw [findRecord]
  split
  case isFalse => exact ⟨seen, rfl⟩
  case isTrue =>
    refine Leads.bind (Leads.perform fun w record _ => ?_)
    cases record with
    | none => exact ⟨_, .idle trivial, seen, rfl⟩
    | some record =>
      refine ⟨_, .read record, ?_⟩
      rw [Option.filter_some]
      split
      · exact rfl
      · exact ⟨_, rfl⟩

theorem comes_getRecord {id : Str} {name : Option Str} :
    Comes ctx f (.before seen drawn) (getRecord id name where_)
      fun record p' => p' = .before (some record) drawn := by
  refine Leads.bind (comes_findRecord.mono ?_ fun _ _ h => h)
  intro record p' h
  cases record with
  | some record => exact h
  | none => trivial

theorem comes_updateUser {record : UserRecord} {patch : UserPatch}
    (h : Writes ctx f drawn record patch) :
    Comes ctx f (.before (some record) drawn) (updateUser record.id patch record.version)
      fun _ p' => p' = .wrote := by
  refine Leads.bind (Leads.perform fun w r _ => ?_)
  cases r with
  | ok new => exact ⟨_, .write h, rfl⟩
  | error e => exact ⟨_, .refused e, trivial⟩

theorem comes_writeUser {id : Str} {ifVersion : Option ℕ}
    {patchOf : UserRecord → Time → Flow (Patch × α)}
    (h : ∀ record now, Comes ctx f (.before (some record) drawn) (patchOf record now)
      fun a p' => p' = .before (some record) drawn ∧ Writes ctx f drawn record (a.1.updating now)) :
    Comes ctx f (.before seen drawn) (writeUser id type ifVersion where_ patchOf)
      fun _ p' => p' = .wrote := by
  refine Leads.bind (comes_getRecord.mono ?_ fun _ _ h => h)
  rintro record _ rfl
  split
  · trivial
  · refine comes_bind (idles_call trivial) fun now =>
      Leads.bind ((h record now).mono ?_ fun _ _ h => h)
    rintro ⟨patch, noted⟩ _ ⟨rfl, hwrites⟩
    exact Leads.bind ((comes_updateUser hwrites).mono (fun _ _ h => h) fun _ _ h => h)

/-! ### The lifecycle -/

theorem comes_enrollFactor {user : UserRef} {ifVersion : Option ℕ} {at_ at_' : At} :
    Comes ctx (.enroll type user ifVersion at_') (.before seen drawn)
      (enrollFactor ctx type user ifVersion at_) fun _ p' => p' = .wrote := by
  refine comes_bind idles_done fun configured => comes_bind ?_ fun secret => ?_
  · exact Only.bind (idles_call trivial) fun _ => trivial
  · refine Leads.bind ((comes_writeUser fun record now => ?_).mono ?_ fun _ _ h => h)
    · rw [enrolled]
      split
      case isTrue => trivial
      case isFalse hactive =>
        refine comes_bind idles_done fun _ => ?_
        refine Leads.bind (comes_seal.mono ?_ fun _ _ h => h)
        rintro sealed _ ⟨rfl, -⟩
        exact ⟨rfl, ⟨rfl, rfl, rfl, rfl⟩, rfl, rfl, _, rfl,
          Bool.eq_false_of_not_eq_true hactive, sealed, rfl⟩
    · rintro ⟨written, _⟩ _ rfl
      exact comes_bind idles_done fun _ => rfl

theorem comes_activateFactor {user : UserRef} {code : Str} {ifVersion : Option ℕ}
    {at_ at_' : At} :
    Comes ctx (.activate type user code ifVersion at_') (.before seen [])
      (activateFactor ctx type user code ifVersion at_) fun _ p' => p' = .wrote := by
  refine comes_bind idles_done fun configured => ?_
  refine Leads.bind (comes_mintRecoveryCodes.mono ?_ fun _ _ h => h)
  rintro codes _ ⟨drawn, rfl, hdrawn, rfl⟩
  refine Leads.bind ((comes_writeUser fun record now => ?_).mono ?_ fun _ _ h => h)
  · unfold activated
    split
    case h_1 => trivial
    case h_2 factor hfactor =>
      split
      case isTrue => trivial
      case isFalse =>
        refine Leads.bind (comes_acceptCode.mono ?_ fun _ _ h => h)
        rintro accepted _ ⟨rfl, haccepts⟩
        cases accepted with
        | none => trivial
        | some accepted =>
          exact ⟨rfl, ⟨rfl, rfl, rfl, rfl⟩, rfl, rfl, _, rfl, factor, accepted, now, _, hfactor,
            haccepts accepted rfl, ⟨hdrawn, _, rfl⟩, rfl⟩
  · rintro ⟨written, _⟩ _ rfl
    exact comes_bind (idles_of_calm (calm_emit rfl)) fun _ => rfl

theorem comes_regenerateRecoveryCodes {user : UserRef} {code : Str} {ifVersion : Option ℕ}
    {at_ at_' : At} :
    Comes ctx (.regenerate type user code ifVersion at_') (.before seen [])
      (regenerateRecoveryCodes ctx type user code ifVersion at_) fun _ p' => p' = .wrote := by
  refine comes_bind idles_done fun configured => ?_
  refine Leads.bind (comes_mintRecoveryCodes.mono ?_ fun _ _ h => h)
  rintro codes _ ⟨drawn, rfl, hdrawn, rfl⟩
  refine Leads.bind ((comes_writeUser fun record now => ?_).mono ?_ fun _ _ h => h)
  · unfold regenerated
    split
    case h_1 => trivial
    case h_2 factor hfactor =>
      refine comes_bind idles_countAppCodeAttempt fun left => ?_
      refine Leads.bind (comes_acceptCode.mono ?_ fun _ _ h => h)
      rintro accepted _ ⟨rfl, haccepts⟩
      cases accepted with
      | none => trivial
      | some accepted => exact ⟨rfl, ⟨rfl, rfl, rfl, rfl⟩, rfl, rfl, _, rfl, factor, accepted, _,
          (Option.filter_eq_some_iff.mp hfactor).1, haccepts accepted rfl, ⟨hdrawn, _, rfl⟩, rfl⟩
  · rintro ⟨written, _⟩ _ rfl
    exact comes_bind (idles_of_calm (calm_emit rfl)) fun _ => rfl

theorem comes_disableFactor {user : UserRef} {ifVersion : Option ℕ} {at_ at_' : At} :
    Comes ctx (.disable type user ifVersion at_') (.before seen drawn)
      (disableFactor ctx type user ifVersion at_) fun _ p' => p' = .wrote := by
  refine Leads.bind ((comes_writeUser fun record now => ?_).mono ?_ fun _ _ h => h)
  · exact ⟨rfl, ⟨rfl, rfl, rfl, rfl⟩, rfl, rfl, _, rfl, rfl⟩
  · rintro ⟨written, wasActive⟩ _ rfl
    refine comes_bind ?_ fun _ => rfl
    split
    · exact idles_of_calm (calm_emit rfl)
    · trivial

/-! ### A challenge redeemed -/

theorem comes_openChallenge {challenge : Str} :
    Comes ctx f (.before seen drawn) (openChallenge ctx type challenge where_)
      fun opened p' => p' = .before (some opened.record) drawn ∧
        opened.record.secondFactor = some opened.factor := by
  refine comes_bind idles_done fun configured => comes_bind (idles_of_calm calm_countCodeAttempt) ?_
  rintro ⟨token, attemptsLeft⟩
  refine Leads.bind (comes_findRecord.mono ?_ fun _ _ h => h)
  intro record p' hp
  cases record with
  | none => exact comes_fail (idles_of_calm calm_unknownChallenge)
  | some record =>
    obtain rfl : p' = .before (some record) drawn := hp
    dsimp only
    rw [activeFactor]
    refine Leads.bind ?_
    split
    · exact comes_bind (idles_of_calm calm_spendOneTime) fun _ => trivial
    · split
      case h_1 factor hfactor => exact ⟨rfl, (Option.filter_eq_some_iff.mp hfactor).1⟩
      case h_2 => exact comes_bind (idles_of_calm calm_spendOneTime) fun _ => trivial

theorem comes_refuseCode {opened : OpenedChallenge} {Q : α → Phase → Prop} :
    Comes ctx f p (refuseCode ctx type opened where_) Q := by
  refine comes_fail ?_
  split
  · exact idles_of_calm calm_burnOneTime
  · trivial

theorem comes_completeSignIn {secret : Str} {written : UserRecord} :
    Comes ctx f .wrote (completeSignIn ctx type secret written where_) fun _ p' =>
    p' = .opened := by
  refine comes_bind (idles_of_calm calm_spendOneTime) fun _ => ?_
  refine comes_bind (idles_of_calm calm_restartSignInCount) fun _ => ?_
  refine comes_bind (idles_call trivial) fun now => ?_
  refine comes_bind (Only.bind (idles_call trivial) fun _ => trivial) fun token => ?_
  refine comes_bind (Only.bind (idles_call trivial) fun _ => trivial) fun id => ?_
  exact Leads.bind (Leads.perform fun w r _ => ⟨_, .enter, rfl⟩)

theorem comes_confirmChallenge {challenge code : Str} {at_ : At} :
    Comes ctx (.confirm type challenge code at_) (.before seen drawn)
      (confirmChallenge ctx type challenge code at_) fun _ p' => p' = .opened := by
  refine Leads.bind (comes_openChallenge.mono ?_ fun _ _ h => h)
  rintro opened _ ⟨rfl, hfactor⟩
  refine comes_bind (idles_call trivial) fun now =>
    Leads.bind (comes_acceptCode.mono ?_ fun _ _ h => h)
  rintro accepted _ ⟨rfl, haccepts⟩
  cases accepted with
  | none => exact comes_refuseCode
  | some accepted =>
    refine Leads.bind ((comes_updateUser ?_).mono ?_ fun _ _ h => h)
    · exact ⟨⟨rfl, rfl, rfl, rfl⟩, rfl, rfl, _, rfl, opened.factor, accepted, hfactor,
        haccepts accepted rfl, rfl⟩
    · rintro written _ rfl
      exact comes_completeSignIn

theorem comes_recoverWithCode {challenge code : Str} {at_ : At} :
    Comes ctx (.recover type challenge code at_) (.before seen drawn)
      (recoverWithCode ctx type challenge code at_) fun _ p' => p' = .opened := by
  refine Leads.bind (comes_openChallenge.mono ?_ fun _ _ h => h)
  rintro opened _ ⟨rfl, hfactor⟩
  refine Leads.bind (Leads.done (fun found hfound => ?_) fun _ _ => trivial)
  cases found with
  | none => exact comes_refuseCode
  | some found =>
    obtain ⟨hash, hash_found⟩ := found_of_findRecoveryCode hfound
    refine comes_bind (idles_call trivial) fun now => ?_
    refine Leads.bind ((comes_updateUser ?_).mono ?_ fun _ _ h => h)
    · exact ⟨⟨rfl, rfl, rfl, rfl⟩, rfl, rfl, _, rfl, opened.factor, found, hash, hfactor,
        hash_found, rfl⟩
    · rintro written _ rfl
      refine Leads.bind (Leads.ensure (comes_completeSignIn.mono ?_ fun _ _ _ => ?_))
      · rintro _ _ rfl
        exact (comes_idle (idles_of_calm (calm_emit rfl))).mono (fun _ _ h => h) fun _ _ h => h
      · exact (comes_idle (idles_of_calm (calm_emit rfl))).mono (fun _ _ _ => trivial)
          fun _ _ h => h

/-! ### A step-up -/

theorem idles_standingSession {presented : Option Str} : Idles (standingSession ctx presented) := by
  unfold standingSession
  split
  · trivial
  · exact Only.bind (idles_call trivial) fun _ => Only.bind (idles_call trivial) fun _ => trivial

theorem idles_findRecord {id : Str} {name : Option Str} : Idles (findRecord id name) := by
  rw [findRecord]
  split
  · exact Only.bind (idles_call trivial) fun _ => trivial
  · trivial

theorem idles_stepUpUser {token : TokenRecord} {secret : Str} :
    Idles (stepUpUser ctx type token secret where_) := by
  refine Only.bind idles_findRecord fun record => ?_
  cases record with
  | none => exact Only.bind (idles_of_calm calm_unknownChallenge) fun _ => trivial
  | some user =>
    dsimp only
    split
    · exact Only.bind (idles_of_calm calm_spendOneTime) fun _ => trivial
    · trivial

theorem comes_stepUpUser {token : TokenRecord} {secret : Str} :
    Comes ctx f (.before seen drawn) (stepUpUser ctx type token secret where_)
      fun user p' => p' = .before (some user) drawn := by
  refine Leads.bind (comes_findRecord.mono ?_ fun _ _ h => h)
  intro record p' hp
  cases record with
  | none => exact comes_fail (idles_of_calm calm_unknownChallenge)
  | some user =>
    dsimp only
    split
    · exact comes_bind (idles_of_calm calm_spendOneTime) fun _ => trivial
    · exact hp

/-- The session a request presents, when it is the challenge's user's. -/
theorem idles_presented {presented : Option Str} {token : TokenRecord} :
    Idles (do return (← standingSession ctx presented).filter (·.userId = token.userId)) :=
  Only.bind idles_standingSession fun _ => trivial

theorem idles_refuseStepUp {user : UserRecord} {counted : CountedStepUp} {attemptsLeft : ℕ} :
    Idles (refuseStepUp ctx type user counted attemptsLeft where_ : Flow α) := by
  refine Only.bind ?_ fun _ => trivial
  split
  · exact idles_of_calm calm_burnOneTime
  · trivial

theorem idles_checkEmailedCode {user : UserRecord} {counted : CountedStepUp} {code : Str} :
    Idles (checkEmailedCode ctx type user counted code where_) := by
  rw [checkEmailedCode]
  split
  · exact Only.bind (idles_of_calm calm_spendOneTime) fun _ => trivial
  · split
    · exact Only.bind (idles_of_calm calm_spendOneTime) fun _ => idles_done
    · exact idles_refuseStepUp

theorem comes_checkAppCode {presented : Option Str} {challenge code : Str} {at_ : At}
    {user : UserRecord} {counted : CountedStepUp} :
    Comes ctx (.stepUp type presented challenge code at_) (.before (some user) drawn)
      (checkAppCode ctx type user counted code where_) fun _ p' => p' = .wrote := by
  unfold checkAppCode
  split
  case h_1 => exact comes_bind (idles_of_calm calm_spendOneTime) fun _ => trivial
  case h_2 factor hfactor =>
    refine comes_bind idles_done fun configured =>
      comes_bind idles_countAppCodeAttempt fun left => ?_
    refine comes_bind (idles_call trivial) fun now => ?_
    refine Leads.bind (comes_acceptCode.mono ?_ fun _ _ h => h)
    rintro accepted _ ⟨rfl, haccepts⟩
    cases accepted with
    | none =>
      exact comes_bind (by split; exacts [idles_of_calm calm_burnOneTime, trivial]) fun _ => trivial
    | some accepted =>
      refine Leads.bind ((comes_updateUser ?_).mono ?_ fun _ _ h => h)
      · exact ⟨⟨rfl, rfl, rfl, rfl⟩, rfl, rfl, _, rfl, factor, accepted,
          (Option.filter_eq_some_iff.mp hfactor).1,
          haccepts accepted rfl, rfl⟩
      · rintro written _ rfl
        exact comes_bind (idles_of_calm calm_spendOneTime) fun _ => rfl

/-- The attempt counted, and whether the challenge has a code of its own. -/
theorem comes_countStepUp {presented : Option Str} {challenge code userType : Str} {at_ : At} :
    Comes ctx (.stepUp type presented challenge code at_) (.before none drawn)
      (countCodeAttempt ctx challenge .stepUp where_ userType)
      (fun a p' => a.1.codeHash ≠ none ∧ p' = .emailed ∨
        a.1.codeHash = none ∧ p' = .before none drawn) := by
  refine Leads.bind (Leads.perform fun w token _ => ?_)
  have htail : ∀ {p}, (∀ t, token = some t →
      t.codeHash ≠ none ∧ p = .emailed ∨ t.codeHash = none ∧ p = .before none drawn) →
      Comes ctx (.stepUp type presented challenge code at_) p (do
        let now ← call .now
        let token ← Prog.done (refuseUnusable token now where_ .challenge)
        if codeAttempts < token.attempts then
          Prog.fail (codeInvalid where_ token.userId userType (some 0))
        else pure (token, codeAttempts - token.attempts))
      (fun a p' => a.1.codeHash ≠ none ∧ p' = .emailed ∨
        a.1.codeHash = none ∧ p' = .before none drawn) := by
    intro p hp
    refine comes_bind (idles_call trivial) fun now =>
      Leads.bind (Leads.done (fun t ht => ?_) fun _ _ => trivial)
    split
    · trivial
    · exact hp t (unspent_of_refuseUnusable ht).1
  by_cases h : ∀ t, token = some t → t.codeHash = none
  · exact ⟨_, .idle trivial, htail fun t ht => Or.inr ⟨h t ht, rfl⟩⟩
  · obtain ⟨t, rfl, ht⟩ := by simpa using h
    refine ⟨_, .emailed ht, htail ?_⟩
    rintro _ ⟨⟩
    exact Or.inl ⟨ht, rfl⟩

/-- The session confirmed last. -/
theorem comes_reauthenticateSession {p : Phase} {session : SessionRecord} {where_ : Str}
    (hp : p = .wrote ∨ p = .emailed) :
    Comes ctx f p (do
      let now ← call .now
      match ← call (.reauthenticateSession session.id now) with
      | some confirmed => pure confirmed
      | none => Prog.fail (signedOut where_)) fun _ p' => p' = .wrote ∨ p' = .emailed := by
  refine comes_bind (idles_call trivial) fun now =>
    comes_bind (idles_call trivial) fun confirmed => ?_
  cases confirmed with
  | none => trivial
  | some confirmed => exact hp

theorem comes_confirmStepUp {presented : Option Str} {challenge code : Str} {at_ : At} :
    Comes ctx (.stepUp type presented challenge code at_) (.before none drawn)
      (confirmStepUp ctx type presented challenge code at_)
      fun _ p' => p' = .wrote ∨ p' = .emailed := by
  refine Leads.bind (comes_countStepUp.mono ?_ fun _ _ h => h)
  rintro ⟨token, attemptsLeft⟩ _ (⟨hcode, rfl⟩ | ⟨hcode, rfl⟩)
  · -- an e-mailed code writes nobody
    have hopen : Idles (openStepUp ctx type presented token challenge (at_ (js "stepUp.confirm"))) := by
      refine Only.bind idles_presented fun session => ?_
      cases session with
      | none => exact Only.bind (idles_of_calm calm_unknownChallenge) fun _ => trivial
      | some session => exact Only.bind idles_stepUpUser fun _ => trivial
    refine comes_bind hopen ?_
    rintro ⟨session, user⟩
    refine comes_bind ?_ fun _ => comes_reauthenticateSession (Or.inr rfl)
    rw [checkStepUp, if_neg hcode]
    exact idles_checkEmailedCode
  · refine Leads.bind (Leads.mono (Q := fun opened p' => p' = .before (some opened.2) drawn) ?_ ?_
      fun _ _ h => h)
    · refine comes_bind idles_presented fun session => ?_
      cases session with
      | none => exact comes_fail (idles_of_calm calm_unknownChallenge)
      | some session => exact Leads.bind (comes_stepUpUser.mono (fun _ _ h => h) fun _ _ h => h)
    · rintro ⟨session, user⟩ _ rfl
      dsimp only
      rw [checkStepUp, if_pos hcode]
      refine Leads.bind (comes_checkAppCode.mono ?_ fun _ _ h => h)
      rintro _ _ rfl
      exact comes_reauthenticateSession (Or.inl rfl)

/-- **A flow writes a factor at most once**, on the record it read, and a sign-in opens its session
after. -/
theorem follows (ctx : Context) (f : FactorFlow) :
    Leads exec (Step ctx f) (.before none []) (f.code ctx) (fun a => Final f (.ok a))
      fun e => Final f (.error e) := by
  have hany : ∀ {x : Flow FactorAnswer} {Q : FactorAnswer → Phase → Prop},
      Comes ctx f (.before none []) x Q → (∀ a p', Q a p' → Final f (.ok a) p') →
      Leads exec (Step ctx f) (.before none []) x (fun a => Final f (.ok a)) fun e =>
        Final f (.error e) :=
    fun h hQ => h.mono hQ fun _ _ _ => by cases f <;> trivial
  cases f with
  | enroll type user ifVersion at_ => exact hany (Leads.map comes_enrollFactor) fun _ _ h => h
  | activate type user code ifVersion at_ =>
    exact hany (Leads.map comes_activateFactor) fun _ _ h => h
  | regenerate type user code ifVersion at_ =>
    exact hany (Leads.map comes_regenerateRecoveryCodes) fun _ _ h => h
  | disable type user ifVersion at_ => exact hany (Leads.map comes_disableFactor) fun _ _ h => h
  | confirm type challenge code at_ => exact hany (Leads.map comes_confirmChallenge) fun _ _ h => h
  | recover type challenge code at_ => exact hany (Leads.map comes_recoverWithCode) fun _ _ h => h
  | stepUp type presented challenge code at_ =>
    exact hany (Leads.map comes_confirmStepUp) fun _ _ h => h

end Leads

/-- The phases of any number of them. -/
def protocol (ctx : Context) : Protocol (factorService ctx) where
  Phase := Phase
  start _ := .before none []
  Step := Step ctx
  Final := Final
  follows := follows ctx

end FactorWrites

end Janus.Auth
