import Janus.Auth.Flows

/-!
# Auth/Phases — each flow follows its phases

A flow that only counts, spends and draws stays where it is (`leads_quiet`); what reads, opens or
writes moves it, one phase step a call.  `authProtocol` puts the flows together.
-/

namespace Janus.Auth

open Js Insertion Calls

variable {ctx : Context}

/-! ## Quiet flows -/

/-- A flow whose calls are quiet, and whose failures no refusal of a write. -/
abbrev Calm {α : Type} (ctx : Context) (x : Flow α) : Prop := Only (Quiet ctx) Tame x

theorem calm_call {c : Call} (h : Quiet ctx c) : Calm ctx (call c) := Only.perform h

theorem leads_quiet {α : Type} {f : AuthFlow} {p : Phase} {x : Flow α} (h : Calm ctx x) :
    Leads exec (Step ctx f) p x (fun _ p' => p'.place = p.place)
      (fun e p' => Tame e ∧ p'.place = p.place) :=
  Leads.of_only (J := fun p' => p'.place = p.place)
    (fun p' c r hp' hc => ⟨_, .quiet hc, (Phase.answered_place p' c r).trans hp'⟩) h rfl

/-! ### The count of a login -/

section Throttle

variable {type : ResolvedType} {login where_ : Str} {throttle : Throttle}

/-- The links of a login are stored under no user, and named by keyed hashes. -/
theorem quiet_insertLink (links : Links) (h : ∃ where_,
    links.counting = loginWindow ctx throttle type login where_) (link : ℕ) :
    Quiet ctx (.insertToken (links.record (links.hash link))) := by
  obtain ⟨where_, h⟩ := h
  have huser : (links.record (links.hash link)).userId = loginKey ctx type login := by
    rw [Links.record, h, loginWindow]
  have hhash : (links.record (links.hash link)).tokenHash =
      loginLink ctx type login links.window link := by
    rw [Links.record, Links.hash, h, loginWindow]
  exact ⟨huser ▸ ctx.runtime.keyed_not_id _ _, _, _, hhash⟩

theorem calm_insertLink (links : Links) (h : ∃ where_,
    links.counting = loginWindow ctx throttle type login where_) (link : ℕ) :
    Calm ctx (insertLink links (links.hash link)) := by
  refine Only.bind (calm_call (quiet_insertLink links h link)) fun _ => ?_
  refine Only.bind (calm_call trivial) fun counted => ?_
  cases counted with
  | some t => trivial
  | none =>
    obtain ⟨where_, h⟩ := h
    change Tame links.counting.vanished
    rw [h, loginWindow]
    trivial

theorem calm_restartFrom (links : Links) (h : ∃ where_,
    links.counting = loginWindow ctx throttle type login where_) (probes : ℕ) (spent : ℤ)
    (absent : Option ℤ) : Calm ctx (restartFrom links probes spent absent) := by
  induction probes generalizing spent absent with
  | zero =>
    obtain ⟨where_, h⟩ := h
    change Tame links.counting.vanished
    rw [h, loginWindow]
    trivial
  | succ probes ih =>
    refine Only.bind ?_ fun counted => ?_
    · rw [probe]
      split
      case isTrue => exact Only.map (calm_insertLink links h _)
      case isFalse => exact calm_call trivial
    · cases counted with
      | none => exact ih ..
      | some t =>
        dsimp only
        split
        · trivial
        · exact ih ..

theorem calm_countLogin : Calm ctx (countLogin ctx type login where_) := by
  rw [countLogin]
  split
  case h_1 => trivial
  case h_2 throttle _ =>
    refine Only.map (Only.bind (calm_call trivial) fun now => ?_)
    exact Only.bind (calm_restartFrom _ ⟨where_, rfl⟩ ..) fun _ => trivial

theorem calm_countSignInAttempt : Calm ctx (countSignInAttempt ctx type login where_) := by
  refine Only.bind calm_countLogin fun counted => ?_
  split
  case h_1 =>
    split
    · trivial
    · exact Only.bind (calm_call trivial) fun _ => trivial
  case h_2 => trivial

theorem calm_restartSignInCount {record : UserRecord} :
    Calm ctx (restartSignInCount ctx type record where_) := by
  rw [restartSignInCount]
  split
  case h_1 => trivial
  case h_2 =>
    refine Only.bind calm_countLogin fun counted => ?_
    split
    · trivial
    · exact Only.bind (calm_call trivial) fun _ => Only.bind (calm_call trivial) fun _ => trivial

end Throttle

/-! ### Tokens, codes and events -/

section Tokens

variable {secret where_ : Str} {kind : TokenKind} {noun : OneTimeNoun}

theorem tame_of_refuseUnusable {token : Option TokenRecord} {now : Time} {e : Failure}
    (h : refuseUnusable token now where_ noun = .error e) : Tame e := by
  unfold refuseUnusable at h
  split at h
  case h_1 => cases h; trivial
  case h_2 =>
    split at h
    · cases h; trivial
    · split at h
      · cases h; trivial
      · cases h

theorem calm_spendOneTime : Calm ctx (spendOneTime ctx secret kind where_ noun) :=
  Only.bind (calm_call trivial) fun _ => Only.bind (calm_call trivial) fun _ =>
    Only.done fun _ h => tame_of_refuseUnusable h

theorem calm_burnOneTime : Calm ctx (burnOneTime ctx secret kind) :=
  Only.bind (calm_call trivial) fun _ => Only.bind (calm_call trivial) fun _ => trivial

theorem calm_countCodeAttempt {userType : Str} :
    Calm ctx (countCodeAttempt ctx secret kind where_ userType) := by
  refine Only.bind (calm_call trivial) fun _ => Only.bind (calm_call trivial) fun _ => ?_
  refine Only.bind (Only.done fun _ h => tame_of_refuseUnusable h) fun token => ?_
  split <;> trivial

theorem calm_unknownChallenge {token : TokenRecord} :
    Calm ctx (unknownChallenge ctx token secret where_) := by
  refine Only.bind ?_ fun _ => trivial
  split
  · exact calm_burnOneTime
  · trivial

theorem calm_emit {type : UserEventType} {user : UserRecord} {occurredAt : Time}
    (h : type.replaces = false) : Calm ctx (emit ctx type user occurredAt) := by
  rw [emit]
  split
  · exact calm_call h
  · trivial

theorem calm_endWhatThePasswordOpened {userId : Str} :
    Calm ctx (endWhatThePasswordOpened userId) := by
  refine Only.bind (calm_call trivial) fun now => Only.bind (calm_call trivial) fun inOrder => ?_
  cases inOrder <;>
    exact Only.bind (calm_call trivial) fun _ => Only.bind (calm_call trivial) fun _ => trivial

theorem calm_endWhatTheSquatterOpened {userId : Str} :
    Calm ctx (endWhatTheSquatterOpened userId) :=
  Only.bind (calm_call trivial) fun _ => Only.bind (calm_call trivial) fun _ =>
    calm_endWhatThePasswordOpened

end Tokens

/-! ## A sign-in -/

section SignIn

variable {α β : Type} {f : AuthFlow} {p : Phase} {place : Place} {Q : β → Phase → Prop}
  {Z : Failure → Phase → Prop}

/-- A quiet flow, and another after it where it stands. -/
theorem leads_quiet_bind {x : Flow α} {k : α → Flow β} (hx : Calm ctx x) (hp : p.place = place)
    (hk : ∀ a p', p'.place = place → Leads exec (Step ctx f) p' (k a) Q Z)
    (hZ : ∀ e p', Tame e → p'.place = place → Z e p') :
    Leads exec (Step ctx f) p (x >>= k) Q Z :=
  Leads.bind ((leads_quiet hx).mono (fun a p' h => hk a p' (h.trans hp))
    fun e p' h => hZ e p' h.1 (h.2.trans hp))

theorem leads_done_bind {r : Except Failure α} {k : α → Flow β}
    (hk : ∀ a, r = .ok a → Leads exec (Step ctx f) p (k a) Q Z) (hZ : ∀ e, r = .error e → Z e p) :
    Leads exec (Step ctx f) p (Prog.done r >>= k) Q Z :=
  Leads.bind (Leads.done hk hZ)

/-- A quiet call. -/
theorem leads_call_bind {c : Call} {k : Answer c → Flow β} (hc : Quiet ctx c)
    (hk : ∀ r, Leads exec (Step ctx f) (p.answered c r) (k r) Q Z) :
    Leads exec (Step ctx f) p (call c >>= k) Q Z :=
  Leads.bind (Leads.perform fun _ r _ => ⟨_, .quiet hc, hk r⟩)

variable {type : ResolvedType} {where_ : Str}

/-- A session opened, wherever storing it leads. -/
theorem leads_openSession {user : UserRecord} {land : SessionRecord → Phase}
    (hp : p.place = place) (hstep : ∀ record drawn, Minted ctx record user.id drawn →
      Step ctx f ⟨place, some drawn⟩ (.insertSession record) () (land record)) :
    Leads exec (Step ctx f) p (openSession ctx type user)
      (fun result p' => ∃ u session token, result = .signedIn u session token ∧
        session.userId = user.id ∧ p' = land session) Z := by
  obtain ⟨_, d⟩ := p
  obtain rfl : _ = place := hp
  refine leads_call_bind trivial fun now => ?_
  refine Leads.bind (leads_call_bind trivial fun token => ?_)
  refine Leads.bind (leads_call_bind trivial fun drawn => ?_)
  refine Leads.bind (Leads.perform fun w r _ => ⟨_, hstep _ drawn ⟨⟨now, rfl⟩, rfl, rfl⟩, ?_⟩)
  exact ⟨_, _, _, rfl, rfl, rfl⟩

/-- …and a challenge issued. -/
theorem leads_issueChallenge {user : UserRecord} {land : TokenRecord → Phase}
    (hp : p.place = place) (hstep : ∀ record drawn, Issued ctx record user.id drawn →
      Step ctx f ⟨place, some drawn⟩ (.insertToken record) () (land record))
    (hZ : ∀ e p', Tame e → p'.place = place → Z e p') :
    Leads exec (Step ctx f) p (issueChallenge ctx user where_)
      (fun result p' => ∃ secret expiresAt record, result = .secondFactor secret expiresAt user.id ∧
        record.tokenHash = hashSecret ctx secret ∧ p' = land record) Z := by
  obtain ⟨_, d⟩ := p
  obtain rfl : _ = place := hp
  refine leads_done_bind (fun configured _ => ?_) fun e he => hZ e _ ?_ rfl
  · refine Leads.bind (leads_call_bind trivial fun now => ?_)
    refine Leads.bind (leads_call_bind trivial fun drawn => ?_)
    refine Leads.bind (Leads.perform fun w r _ => ⟨_, hstep _ drawn ⟨rfl, rfl, rfl, rfl⟩, ?_⟩)
    exact ⟨_, _, _, rfl, rfl, rfl⟩
  · unfold requireSettings at he
    split at he
    · cases he
    · cases he
      trivial

/-- What a sign-in's answer gives, and whose it is. -/
def Gives (ctx : Context) (verified : UserRecord) : SignInResult → Opened → Prop
  | .signedIn _ session _, x => x = .session session.id ∧ session.userId = verified.id
  | .secondFactor challenge _ userId, x =>
    x = .challenge (hashSecret ctx challenge) ∧ userId = verified.id

end SignIn

section SignIn

variable {type : ResolvedType} {input : Record} {at_ : At} {where_ : Str} {p : Phase}

/-- How a sign-in fails: before it opened anything, or once refused — or where no sign-in comes to.
-/
def SignInFails (password : Str) (e : Failure) (p : Phase) : Prop :=
  (∃ seen, p.place = .plain seen) ∧ Tame e ∨ (∃ x verified,
  p.place = .refused x verified password) ∨
    p.place = .lost ∨ p.place = .stuck

theorem leads_finish {verified : UserRecord} (hp : p.place = .plain (some verified))
    (holds : Holds ctx (some (passwordOf input)) verified) :
    Leads exec (Step ctx (.signIn type input at_)) p (finish ctx type verified where_)
      (fun result p' => ∃ x, Gives ctx verified result x ∧
        p'.place = .opened x verified (passwordOf input))
      (SignInFails (passwordOf input)) := by
  rw [finish]
  split
  · refine (leads_issueChallenge hp (fun _ _ issued => .issue holds issued)
      fun e p' he hp' => Or.inl ⟨⟨_, hp'⟩, he⟩).mono ?_ fun _ _ h => h
    rintro _ p' ⟨secret, expiresAt, record, rfl, hhash, rfl⟩
    exact ⟨_, ⟨congrArg Opened.challenge hhash, rfl⟩, rfl⟩
  · refine (leads_openSession hp fun _ _ minted => .openSession holds minted).mono ?_ fun _ _ h => h
    rintro _ p' ⟨u, session, token, rfl, huser, rfl⟩
    exact ⟨_, ⟨rfl, huser⟩, rfl⟩

/-- The end of what was opened: the session revoked, or the challenge spent. -/
theorem leads_endOpened {result : SignInResult} {x : Opened} {verified : UserRecord} {d : Option ℕ}
    {password : Str} {f : AuthFlow} (hx : Gives ctx verified result x) {Z : Failure → Phase → Prop}
    (hstart : ∀ t, Step ctx f p .now t ⟨.failing x verified password, d⟩) :
    Leads exec (Step ctx f) p (endOpened ctx result)
      (fun _ p' => p'.place = .refused x verified password) Z := by
  cases result with
  | signedIn u session token =>
    obtain rfl : x = .session session.id := hx.1
    refine Leads.bind (Leads.perform fun w t _ => ⟨_, hstart t, ?_⟩)
    exact Leads.bind (Leads.perform fun w r _ => ⟨_, .revokeOwn, rfl⟩)
  | secondFactor challenge expiresAt userId =>
    obtain rfl : x = .challenge (hashSecret ctx challenge) := hx.1
    refine Leads.bind (Leads.perform fun w t _ => ⟨_, hstart t, ?_⟩)
    exact Leads.bind (Leads.perform fun w r _ => ⟨_, .burnOwn, rfl⟩)

/-- What the second comparison says of the record read again. -/
theorem held_of_stillHeld {verified now : UserRecord} {password : Str}
    (holds : Holds ctx (some password) verified) (htype : now.type = type.name)
    (h : stillHeld ctx verified password where_ (some now) = .ok true) :
    Held ctx type password now := by
  unfold stillHeld at h
  dsimp only at h
  split at h
  case h_1 => cases h
  case h_2 stored hstored =>
    refine ⟨htype, ?_⟩
    split at h
    case isTrue hhash => exact holds.congr (by rw [hstored, Option.map_some, hhash])
    case isFalse => exact holds_of_passwordMatches h

theorem not_held_of_stillHeld {verified now : UserRecord} {password : Str}
    (h : stillHeld ctx verified password where_ (some now) = .ok false) :
    ¬ Held ctx type password now := by
  rintro ⟨-, stored, hstored, hmatches⟩
  unfold stillHeld at h
  dsimp only at h
  rw [hstored] at h
  dsimp only at h
  split at h
  case isTrue => cases h
  case isFalse => exact not_holds_of_passwordMatches h ⟨stored, hstored, hmatches⟩

theorem stuck_of_stillHeld {verified : UserRecord} {now : Option UserRecord} {password : Str}
    {e : Failure} (h : stillHeld ctx verified password where_ now = .error e) :
    ∃ record, now = some record ∧
      record.password.map (·.hash) ≠ verified.password.map (·.hash) ∧
      passwordMatches ctx record password where_ = .error e := by
  unfold stillHeld at h
  split at h
  case h_1 => cases h
  case h_2 record =>
    split at h
    case h_1 => cases h
    case h_2 stored hstored =>
      split at h
      case isTrue => cases h
      case isFalse hhash =>
        exact ⟨record, rfl, by rwa [hstored, Option.map_some], h⟩

/-- Read again: what was opened is kept, or ended. -/
theorem leads_heldByPassword {result : SignInResult} {x : Opened} {verified : UserRecord}
    (hx : Gives ctx verified result x) (holds : Holds ctx (some (passwordOf input)) verified)
    (hp : p.place = .opened x verified (passwordOf input)) :
    Leads exec (Step ctx (.signIn type input at_)) p
      (heldByPassword ctx type verified (passwordOf input) result where_)
      (fun kept p' => if kept then ∃ now, p'.place = .kept x verified now (passwordOf input)
        else p'.place = .refused x verified (passwordOf input))
      (fun _ p' => p'.place = .stuck) := by
  obtain ⟨_, d⟩ := p
  obtain rfl : _ = Place.opened x verified (passwordOf input) := hp
  have hend : ∀ {p}, (∀ t, Step ctx (.signIn type input at_) p .now t
      ⟨.failing x verified (passwordOf input), d⟩) →
      Leads exec (Step ctx (.signIn type input at_)) p (do endOpened ctx result; pure false)
        (fun kept p' => if kept then ∃ now, p'.place = .kept x verified now (passwordOf input)
          else p'.place = .refused x verified (passwordOf input)) (fun _ p' => p'.place = .stuck) :=
    fun hstart => Leads.bind (leads_endOpened hx hstart)
  rw [heldByPassword, findRecord]
  split
  case isTrue =>
    refine Leads.bind (Leads.bind (Leads.perform fun w now _ => ?_))
    -- the phase after the read is the one the comparison leads to
    cases hstill : stillHeld ctx verified (passwordOf input) where_
        (now.filter fun record => (some type.name).all (record.type = ·)) with
    | error e =>
      obtain ⟨record, hrecord, hhash, herror⟩ := stuck_of_stillHeld hstill
      obtain rfl := (Option.filter_eq_some_iff.mp hrecord).1
      exact ⟨_, .stuck record e hhash herror,
        leads_done_bind (fun _ h => nomatch hstill.symm.trans h)
        fun _ _ => rfl⟩
    | ok kept =>
      cases kept with
      | true =>
        cases hnow : now.filter fun record => (some type.name).all (record.type = ·) with
        | none => rw [hnow] at hstill; cases hstill
        | some record =>
          obtain ⟨rfl, htype⟩ := Option.filter_eq_some_iff.mp hnow
          rw [hnow] at hstill
          refine ⟨_, .keep record (held_of_stillHeld holds (by simpa using htype) hstill),
            leads_done_bind (fun b h => ?_) fun _ h => nomatch hstill.symm.trans h⟩
          cases hstill.symm.trans h
          exact ⟨record, rfl⟩
      | false =>
        refine ⟨_, .overtaken now fun record hrecord held => ?_,
          leads_done_bind (fun b h => ?_) fun _ h => nomatch hstill.symm.trans h⟩
        · subst hrecord
          have hfilter : (some record).filter
              (fun record => (some type.name).all (record.type = ·)) = some record :=
            Option.filter_eq_some_iff.mpr ⟨rfl, by simpa using held.1⟩
          rw [hfilter] at hstill
          exact not_held_of_stillHeld hstill held
        · cases hstill.symm.trans h
          exact hend fun t => .quiet trivial
  case isFalse hid =>
    refine leads_done_bind (fun b h => ?_) fun _ h => nomatch h
    cases h
    exact hend fun t => .unread t (Bool.eq_false_of_not_eq_true hid)

/-- The hash rewritten, or not: the password verified is the one held. -/
theorem leads_rehashed {record : UserRecord} (hp : p.place = .plain (some record))
    (holds : Holds ctx (some (passwordOf input)) record) :
    Leads exec (Step ctx (.signIn type input at_)) p (rehashed ctx record (passwordOf input))
      (fun verified p' => p'.place = .plain (some verified) ∧
        Holds ctx (some (passwordOf input)) verified) (fun _ p' => p'.place = .lost) := by
  obtain ⟨_, d⟩ := p
  obtain rfl : _ = Place.plain (some record) := hp
  unfold rehashed
  split
  case h_2 => exact ⟨rfl, holds⟩
  case h_1 hasher stored hhasher hstored =>
    split
    case isFalse => exact ⟨rfl, holds⟩
    case isTrue =>
      refine leads_call_bind trivial fun now => ?_
      refine Leads.bind (leads_call_bind trivial fun salt => ?_)
      have made : Made ctx (passwordOf input) (hasher.hash (passwordOf input) salt) :=
        ⟨hasher, salt, hhasher, rfl⟩
      refine Leads.bind (Leads.bind (Leads.attempt (Leads.bind (Leads.perform fun w r hr => ?_))))
      cases r with
      | ok written =>
        obtain ⟨current, _, _, rfl, _⟩ := exec_updateUser hr
        exact ⟨_, .rehash holds rfl made, rfl, _, rfl, made.matches⟩
      | error e =>
        obtain ⟨_, ⟨_, message, details, rfl⟩ | ⟨message, details, rfl⟩ | ⟨hlogins, _⟩⟩ :=
          exec_updateUser_error hr
        · exact ⟨_, .lost _ ⟨message, details, rfl⟩, rfl⟩
        · exact ⟨_, .raced _ fun _ => trivial, rfl, holds⟩
        · exact absurd rfl hlogins

theorem tame_of_passwordRule {e : Failure} (h : passwordRule type where_ = .error e) : Tame e := by
  unfold passwordRule at h
  split at h
  · cases h
  · cases h
    trivial

theorem tame_of_requireHasher {e : Failure} (h : requireHasher ctx where_ = .error e) : Tame e := by
  unfold requireHasher at h
  split at h
  · cases h
  · cases h
    trivial

theorem tame_of_passwordMatches {record : UserRecord} {password : Str} {e : Failure}
    (h : passwordMatches ctx record password where_ = .error e) : Tame e := by
  unfold passwordMatches at h
  split at h
  case h_1 => cases h
  case h_2 =>
    split at h
    case h_1 => cases h; trivial
    case h_2 =>
      split at h
      case h_1 => cases h
      case h_2 => cases h; trivial

theorem tame_of_refuseAfterPassword {record : UserRecord} {e : Failure}
    (h : refuseAfterPassword type record where_ = .error e) : Tame e := by
  unfold refuseAfterPassword at h
  split at h
  · cases h; trivial
  · split at h
    · cases h
    · split at h
      · cases h; trivial
      · split at h
        · cases h; trivial
        · cases h

/-- What a sign-in that succeeds has come to. -/
def SignedIn (ctx : Context) (password : Str) (result : SignInResult) (p : Phase) : Prop :=
  ∃ x verified now, Gives ctx verified result x ∧ p.place = .kept x verified now password

theorem leads_signInVerified {record : UserRecord} (hp : p.place = .plain (some record))
    (holds : Holds ctx (some (passwordOf input)) record) :
    Leads exec (Step ctx (.signIn type input at_)) p
      (signInVerified ctx type record (passwordOf input) where_) (SignedIn ctx (passwordOf input))
      (SignInFails (passwordOf input)) := by
  refine leads_done_bind (fun _ _ => ?_) fun e he =>
    Or.inl ⟨⟨_, hp⟩, tame_of_refuseAfterPassword he⟩
  refine leads_quiet_bind ?_ hp (fun _ p' hp' => ?_)
    fun e p' he hp' => Or.inl ⟨⟨_, hp'⟩, he⟩
  · split
    · trivial
    · exact calm_restartSignInCount
  refine Leads.bind ((leads_rehashed hp' holds).mono ?_
    fun _ _ h => Or.inr (Or.inr (Or.inl h)))
  rintro verified p' ⟨hp', holds⟩
  refine Leads.bind ((leads_finish hp' holds).mono ?_ fun _ _ h => h)
  rintro result p' ⟨x, hx, hp'⟩
  refine Leads.bind ((leads_heldByPassword hx holds hp').mono ?_
    fun _ _ h => Or.inr (Or.inr (Or.inr h)))
  rintro kept p' hkept
  cases kept with
  | true =>
    obtain ⟨now, hp'⟩ := hkept
    exact ⟨x, verified, now, hx, hp'⟩
  | false => exact Or.inr (Or.inl ⟨x, verified, hkept⟩)

theorem leads_signInAs {record : Option UserRecord} {seen : Option UserRecord}
    (hp : p.place = .plain seen) (hseen : ∀ r, record = some r → seen = some r) :
    Leads exec (Step ctx (.signIn type input at_)) p
      (signInAs ctx type record (passwordOf input) where_) (SignedIn ctx (passwordOf input))
      (SignInFails (passwordOf input)) := by
  unfold signInAs
  split
  case h_1 => exact Or.inl ⟨⟨_, hp⟩, trivial⟩
  case h_2 record =>
    split
    case isTrue => exact Or.inl ⟨⟨_, hp⟩, trivial⟩
    case isFalse =>
      refine leads_done_bind (fun matched hmatched => ?_) fun e he =>
        Or.inl ⟨⟨_, hp⟩, tame_of_passwordMatches he⟩
      cases matched with
      | true =>
        exact leads_signInVerified (hp.trans (congrArg _ (hseen record rfl)))
          (holds_of_passwordMatches hmatched)
      | false => exact Or.inl ⟨⟨_, hp⟩, trivial⟩

theorem leads_signIn {seen : Option UserRecord} (hp : p.place = .plain seen) :
    Leads exec (Step ctx (.signIn type input at_)) p (Auth.signIn ctx type input at_)
      (SignedIn ctx (passwordOf input)) (SignInFails (passwordOf input)) := by
  refine leads_done_bind (fun rule _ => ?_) fun e he => Or.inl ⟨⟨_, hp⟩, tame_of_passwordRule he⟩
  refine leads_done_bind (fun _ _ => ?_) fun e he => Or.inl ⟨⟨_, hp⟩, tame_of_requireHasher he⟩
  dsimp only
  split
  case h_1 => exact leads_signInAs hp fun _ h => nomatch h
  case h_2 normalized _ =>
    refine leads_quiet_bind calm_countSignInAttempt hp (fun _ p' hp' => ?_)
      fun e p' he hp' => Or.inl ⟨⟨_, hp'⟩, he⟩
    rw [byLogin]
    split
    case isFalse =>
      change Leads exec _ p' (signInAs ctx type none (passwordOf input) (at_ (js "signIn"))) _ _
      exact leads_signInAs hp' fun _ h => nomatch h
    case isTrue =>
      refine Leads.bind (Leads.perform fun w record _ => ?_)
      obtain ⟨_, d⟩ := p'
      obtain rfl : _ = Place.plain seen := hp'
      cases record with
      | none => exact ⟨_, .quiet trivial, leads_signInAs (Phase.answered_place ..) fun _ h => nomatch h⟩
      | some record => exact ⟨_, .readLogin record, leads_signInAs rfl fun r hr => hr⟩

end SignIn

end Janus.Auth
